import SmallLisp.Workspace.Environments
import SmallLisp.Workspace.Sessions
import SmallLisp.Workspace.Values

/-!
# Driving a workspace

A workspace is driven by commands and answers each with a reply. A command that is refused
leaves what its evaluation did before it failed, and nothing else.
-/

namespace SmallLisp

/-- What can be done with a workspace. -/
inductive Command where
  | value (command : ValueCommand)
  | environment (command : EnvironmentCommand)
  /-- A command to the session in a slot. -/
  | session (slot : String) (command : SessionCommand)

namespace Command

/-- Carry out a command. -/
def perform : Command → WorkM Reply
  | value command => command.perform
  | environment command => command.perform
  | session slot command => command.perform slot

/-- The command may release a frame. -/
def releases : Command → Bool
  | environment (.release _) => true
  | _ => false

end Command

namespace Workspace

/-- The reply to a command, and the workspace afterwards. -/
def answer (workspace : Workspace) (command : Command) : Reply × Workspace :=
  match command.perform.run workspace with
  | (.ok reply, workspace) => (reply, workspace)
  | (.error reason, workspace) => (.refused reason, workspace)

/-- The replies to commands given one after the other, and the workspace afterwards. -/
def answerAll (workspace : Workspace) : List Command → List Reply × Workspace
  | [] => ([], workspace)
  | command :: rest =>
      let (reply, workspace) := workspace.answer command
      let (replies, workspace) := workspace.answerAll rest
      (reply :: replies, workspace)

/-- An empty workspace over a source of files, for the given commands. What is in use matters
only to a frame that is released, so a census is kept only if one of them releases a frame. -/
def forCommands (files : Files) (commands : List Command) : Workspace :=
  { files, census := if commands.any Command.releases then some {} else none }

end Workspace

end SmallLisp
