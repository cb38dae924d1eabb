import SmallLisp.Proofs.PairedWorkspaces

/-!
# The same replies

A workspace answers the same whether frames are released at the end of calls or not.

## Main results

* `Mirrored.valueCommand`, `Mirrored.environmentCommand`, `Mirrored.sessionCommand` — every command
  is done in step, but for releasing a frame.
* `Mirror.answerAll` — both workspaces of a mirror give the same replies.
* `Mirror.follow` — whatever is done with a workspace, it is the left one of a mirror.
-/

namespace SmallLisp

variable {hosts : HostFunction → Prop}

namespace Mirrored

open WorkM

variable {m : Mirror hosts}

/-! ### Values -/

theorem changePair (pair part : String) {change : Store → CellRef → Value → Store}
    (hchange : ∀ {m : Mirror hosts} {ref : CellRef} {value : Value}, m.twin.intact (.cell ref) →
      value.In m.twin.intact →
      m.twin.Alike (fun store => ((), change store ref value)) fun _ _ => True) :
    Mirrored m (fun _ _ => True) (WorkM.changePair pair part change) := by
  refine .look (Mirrored.value part) fun newPart hpart => ?_
  refine .look (Mirrored.value pair) fun subject hsubject => ?_
  cases subject with
  | pair ref =>
      refine .bind (Mirrored.update (hchange (Value.in_pair.1 hsubject) hpart)) fun m' _ hm' => ?_
      exact .view (m'.twin.shown_eq (hm'.1.isIn hsubject))
  | _ => exact .throw _

theorem makeLambda (scope spec body : String) (name : Option String) :
    Mirrored m (fun m' ref => m'.twin.intact (.lambda ref))
      (WorkM.makeLambda scope spec body name) := by
  refine .look (Mirrored.environment scope) fun frame ⟨hframe, _⟩ => ?_
  refine .bind (Mirrored.readOne m.isOpen spec) fun m₁ specValue ⟨hm₁, hspec⟩ => ?_
  refine .look (P := fun _ => True)
    (.inspect (m₁.twin.agree.params m₁.twin.closed hspec) ⟨rfl, trivial⟩) fun found _ => ?_
  refine .look .orError fun params _ => ?_
  refine .look .orError fun forms _ => ?_
  refine .bind (Mirrored.update (Twin.ofData m₁.isOpen forms)) fun m₂ body ⟨hm₂, hbody⟩ => ?_
  exact (Mirrored.update (Twin.addLambda m₂.isOpen (hm₂.intact (hm₁.intact hframe)) hbody)).imp
    fun _ _ h => h.2

theorem elementsOf {subject : Value} (hsubject : subject.In m.twin.intact) :
    Mirrored m (fun m' items => m = m' ∧ ∀ item ∈ items, item.In m.twin.intact)
      (WorkM.elementsOf subject) := by
  refine .look (P := fun found => found = m.twin.left.properElements subject)
    (.inspect (m.twin.agree.properElements m.twin.closed hsubject) ⟨rfl, rfl⟩) ?_
  rintro _ rfl
  cases hitems : m.twin.left.properElements subject with
  | error cause => exact .throw _
  | ok items => exact .pure ⟨rfl, m.twin.closed.properElements hsubject hitems⟩

/-- **Commands on values** are done in step. -/
theorem valueCommand (command : ValueCommand) :
    Mirrored m (fun _ _ => True) command.perform := by
  cases command with
  | read text target =>
      exact .bind (Mirrored.readOne m.isOpen text) fun _ _ h => Mirrored.giveValue target h.2
  | symbol name target => exact Mirrored.giveValue target (Value.in_of_items_eq_nil rfl)
  | builtin name target => exact Mirrored.giveValue target (Value.in_of_items_eq_nil rfl)
  | cons car cdr target =>
      refine .look (Mirrored.value car) fun first hfirst => ?_
      refine .look (Mirrored.value cdr) fun second hsecond => ?_
      exact .bind (Mirrored.update (Twin.cons m.isOpen hfirst hsecond)) fun _ _ h =>
        Mirrored.giveValue target h.2
  | list items tail target =>
      refine .bind (Mirrored.mapM (fun _ name => Mirrored.operand name) items)
        fun m₁ values ⟨_, hvalues⟩ => ?_
      have hgive : ∀ (m₂ : Mirror hosts) (last : Value), m₁.Grows m₂ ∧ last.In m₂.twin.intact →
          Mirrored m₂ (fun _ _ => True) (do
            WorkM.giveValue target
              (← WorkM.update (·.listWithTail Workspace.arena values last))) :=
        fun m₂ last ⟨hm₂, hlast⟩ => .bind (Mirrored.update (Twin.listWithTail m₂.isOpen
          (fun value h => hm₂.isIn (hvalues value h)) hlast)) fun _ _ h =>
            Mirrored.giveValue target h.2
      cases tail with
      | none => exact hgive m₁ .nil ⟨.refl m₁, Value.in_of_items_eq_nil rfl⟩
      | some name => exact .bind (Mirrored.operand name) hgive
  | setCar pair part =>
      exact Mirrored.changePair pair part fun href hvalue => Twin.setCar href hvalue
  | setCdr pair part =>
      exact Mirrored.changePair pair part fun href hvalue => Twin.setCdr href hvalue
  | describe name =>
      refine .look (Mirrored.value name) fun subject hsubject => ?_
      refine .view ?_
      show m.twin.left.describe subject = m.twin.right.describe subject
      simp only [Store.describe, m.twin.shown_eq hsubject]
  | elements name =>
      refine .look (Mirrored.value name) fun subject hsubject => ?_
      refine .look (Mirrored.elementsOf hsubject) fun items hitems => ?_
      exact .view (m.twin.shownAll_eq hitems)
  | compare left right =>
      refine .look (Mirrored.value left) fun a ha => ?_
      refine .look (Mirrored.value right) fun b hb => ?_
      exact .view (m.twin.agree.equal? m.twin.closed ha hb)
  | forget name =>
      exact .bind (P := fun _ _ => True) (.modified { m with
        values := m.values.remove name
        value := fun hvalue => m.value (Slots.mem_contents_remove hvalue) } rfl rfl rfl trivial)
        fun _ _ _ => .pure trivial
  | lambda scope spec body name isMacro target =>
      refine .bind (Mirrored.makeLambda scope spec body name) fun m' ref href =>
        Mirrored.giveValue target ?_
      cases isMacro with
      | true => exact Value.in_expander.2 href
      | false => exact Value.in_closure.2 href

/-! ### Environments -/

theorem listing_eq {frame : FrameRef} (hframe : m.twin.intact (.frame frame)) :
    m.twin.left.listing frame = m.twin.right.listing frame := by
  rw [Store.listing, Store.listing, ← m.twin.agree.table hframe]
  refine List.map_congr_left fun entry hentry => ?_
  have hvalue : entry.2 ∈ (m.twin.left.table frame).values := List.mem_map_of_mem hentry
  exact congrArg (Prod.mk entry.1.spelling)
    (m.twin.agree.print m.twin.closed (m.twin.closed.binding hframe hvalue))

theorem root_intact {frame : FrameRef} (hframe : m.twin.intact (.frame frame)) :
    m.twin.intact (.frame (m.twin.left.root frame)) := by
  refine m.twin.closed.scope m.twin.chained hframe _ ?_
  rw [Store.root, Store.scope]
  cases (m.twin.left.frame frame).ancestors with
  | nil => exact List.mem_cons_self
  | cons first rest =>
      rw [List.getLastD_cons, ← List.getLast_eq_getLastD (List.cons_ne_nil first rest)]
      exact List.mem_cons_of_mem _ (List.getLast_mem _)

/-- **Commands on environments** are done in step, but for releasing a frame. -/
theorem environmentCommand (command : EnvironmentCommand)
    (hreleases : (Command.environment command).releases = false) :
    Mirrored m (fun _ _ => True) command.perform := by
  cases command with
  | newRoot target =>
      exact .bind (Mirrored.update (Twin.newRoot m.isOpen)) fun _ _ h =>
        Mirrored.giveEnvironment target h.2
  | extend env target =>
      refine .look (Mirrored.environment env) fun frame ⟨hframe, _⟩ => ?_
      exact .bind (Mirrored.update (Twin.extend m.isOpen hframe)) fun _ _ h =>
        Mirrored.giveEnvironment target h.2.1
  | snapshot env target =>
      refine .look (Mirrored.environment env) fun frame ⟨hframe, _⟩ => ?_
      exact .bind (Mirrored.update (Twin.snapshot m.isOpen hframe)) fun _ _ h =>
        Mirrored.giveEnvironment target h.2.1
  | handle env target =>
      refine .look (Mirrored.environment env) fun frame ⟨hframe, _⟩ => ?_
      exact Mirrored.giveEnvironment target hframe
  | root env target =>
      refine .look (Mirrored.environment env) fun frame ⟨hframe, _⟩ => ?_
      have hroot : m.twin.left.root frame = m.twin.right.root frame := by
        rw [Store.root, m.twin.agree.frame hframe, Store.root]
      refine .look (P := fun root => m.twin.intact (.frame root))
        (.inspect hroot ⟨rfl, root_intact hframe⟩) fun root hroot => ?_
      exact Mirrored.giveEnvironment target hroot
  | forget env =>
      exact .bind (P := fun _ _ => True) (.modified { m with
        environments := m.environments.remove env
        environment := fun hframe => m.environment (Slots.mem_contents_remove hframe) }
        rfl rfl rfl trivial) fun _ _ _ => .pure trivial
  | bind env name slot =>
      refine .look (Mirrored.environment env) fun frame ⟨hframe, _⟩ => ?_
      refine .look (Mirrored.value slot) fun bound hbound => ?_
      exact .bind (Mirrored.update (Twin.bind hframe _ hbound)) fun _ _ h =>
        .view (summary_eq (h.1.intact hframe))
  | lookup env name target =>
      refine .look (Mirrored.environment env) fun frame ⟨hframe, _⟩ => ?_
      refine .look (P := fun found => ∀ value, found = some value →
        Value.In m.twin.intact value) (.inspect
          (m.twin.agree.lookup m.twin.closed m.twin.chained hframe _)
          ⟨rfl, fun _ h => m.twin.closed.lookup m.twin.chained hframe h⟩) fun found hfound => ?_
      cases found with
      | none => exact .pure trivial
      | some value => exact Mirrored.giveValue target (hfound value rfl)
  | contains env name =>
      refine .look (Mirrored.environment env) fun frame ⟨hframe, _⟩ => ?_
      exact .view (m.twin.agree.lookup m.twin.closed m.twin.chained hframe _)
  | bindings env =>
      refine .look (Mirrored.environment env) fun frame ⟨hframe, _⟩ => ?_
      exact .view (listing_eq hframe)
  | same left right =>
      refine .look (Mirrored.environment left) fun a _ => ?_
      refine .look (Mirrored.environment right) fun b _ => ?_
      exact .pure trivial
  | clear env =>
      refine .look (Mirrored.environment env) fun frame ⟨hframe, _⟩ => ?_
      exact .bind (Mirrored.update (Twin.clear hframe)) fun _ _ h =>
        .view (summary_eq (h.1.intact hframe))
  | release env => exact nomatch hreleases

/-! ### Sessions -/

theorem forkSession {origin : Session} (horigin : origin ∈ m.sessions.contents) :
    Mirrored m (fun m' session => (∀ frame ∈ session.keeps, m'.twin.intact (.frame frame)) ∧
      session.natives.Hosts hosts) (WorkM.update origin.fork) := by
  obtain ⟨session, twin, hleft, hright, hopens, hnatives⟩ :=
    Session.fork_agrees m.twin trivial (m.keeps horigin)
  refine Mirrored.change hleft hright hopens.census_eq
    (fun item hitem => hopens.intact (m.held_intact item hitem)) ?_
    ⟨hopens.keeps, hnatives ▸ m.supplied horigin⟩
  rw [hopens.size]
  exact Nat.le_succ _

theorem registerNative {before : Session} (hbefore : before ∈ m.sessions.contents) (name : Symbol)
    {native : Native} (hnative : ∀ function, native = .host function → hosts function) :
    Mirrored m (fun m' after => (∀ frame ∈ after.keeps, m'.twin.intact (.frame frame)) ∧
      after.natives.Hosts hosts) (WorkM.update (before.register · name native)) := by
  have hglobals := m.keeps hbefore _ List.mem_cons_self
  refine (Mirrored.update (Session.register_agrees hglobals name native)).imp ?_
  rintro m' _ ⟨hgrows, -, rfl⟩
  exact ⟨fun frame hframe => hgrows.intact (m.keeps hbefore frame hframe),
    (m.supplied hbefore).insert name hnative⟩

/-- **Commands on sessions** are done in step. -/
theorem sessionCommand (slot : String) (command : SessionCommand)
    (hsupplied : (Command.session slot command).Hosts hosts) :
    Mirrored m (fun _ _ => True) (command.perform slot) := by
  cases command with
  | start maxDepth preload =>
      exact .get rfl (.bind (Mirrored.startSession slot maxDepth preload)
        fun _ _ _ => .pure trivial)
  | fork target =>
      refine .get rfl (.look (Mirrored.session slot) fun origin horigin => ?_)
      exact .bind (Mirrored.forkSession horigin) fun m' session ⟨hkeeps, hnatives⟩ =>
        .modifyBoth (m'.putSession target hkeeps hnatives)
  | clone target =>
      refine .get rfl (.look (Mirrored.session slot) fun handle hhandle => ?_)
      exact .modifyBoth (m.putSession target (m.keeps hhandle) (m.supplied hhandle))
  | drop =>
      refine .get rfl (.look (P := fun _ => True) (.look (Mirrored.session slot) fun _ _ =>
        .pure ⟨rfl, trivial⟩) fun _ _ => ?_)
      exact .modifyBoth (m.dropSession slot)
  | eval text =>
      exact .get rfl (.bind (Mirrored.evaluate (Q := fun twin values => ∀ value ∈ values,
        value.In twin.intact) slot fun hsession =>
          Session.evalText_agrees (m.natives_discreet hsession) m.fuel text)
        fun m' _ hvalues => .view (m'.twin.shownAll_eq hvalues))
  | evalLast text target =>
      exact .get rfl (Mirrored.evaluateOne slot target fun hsession =>
        Session.evalTextLast_agrees (m.natives_discreet hsession) m.fuel text)
  | evalLine line =>
      exact .get rfl (.bind (Mirrored.evaluate (Q := fun twin outcomes => ∀ value,
        .ok value ∈ outcomes → value.In twin.intact) slot fun hsession =>
          Session.evalLine_agrees (m.natives_discreet hsession) m.fuel line)
        fun m' _ hvalues => .view (m'.twin.shownOutcomes_eq hvalues))
  | load path target =>
      exact .get rfl (.get rfl (Mirrored.evaluateOne slot target fun hsession =>
        Session.load_agrees (m.natives_discreet hsession) m.fuel m.files path))
  | evalValue form target =>
      refine .get rfl (.look (Mirrored.value form) fun subject hsubject => ?_)
      exact Mirrored.evaluateOne slot target fun hsession =>
        Session.evalGlobal_agrees (m.natives_discreet hsession) m.fuel hsubject
  | evalIn env text target =>
      refine .get rfl (.look (Mirrored.environment env) fun frame ⟨_, hframe⟩ => ?_)
      refine .look (Mirrored.session slot) fun session hsession => ?_
      have hopen := Twin.open_of_intact (m.keeps hsession _ List.mem_cons_self)
      refine .bind (Mirrored.readOne hopen text) fun m' form ⟨hgrows, hform⟩ => ?_
      have hframe' : frame ∈ m'.environments.contents := hgrows.environments.symm ▸ hframe
      refine Mirrored.evaluateOne slot target fun hother =>
        Session.evalIn_agrees (w := m'.stage hother) (m'.natives_discreet hother) m.fuel hform
          (Twin.anchored_of_mem ?_ (m'.environment hframe'))
      exact List.mem_append_right _ (List.mem_append_left _ (List.mem_map_of_mem hframe'))
  | apply function args target =>
      refine .get rfl (.look (Mirrored.value function) fun callee hcallee => ?_)
      refine .bind (Mirrored.mapM (fun _ name => Mirrored.operand name) args)
        fun m' values ⟨hgrows, hvalues⟩ => ?_
      exact Mirrored.evaluateOne slot target fun hsession =>
        Session.apply_agrees (m'.natives_discreet hsession) m.fuel (hgrows.isIn hcallee) hvalues
  | expand text target =>
      refine .get rfl (.look (Mirrored.session slot) fun session hsession => ?_)
      have hopen := Twin.open_of_intact (m.keeps hsession _ List.mem_cons_self)
      refine .bind (Mirrored.readOne hopen text) fun m' form ⟨_, hform⟩ => ?_
      exact Mirrored.evaluateOne slot target fun hsession =>
        Session.expandOnce_agrees (m'.natives_discreet hsession) m.fuel hform
  | globals target =>
      refine .get rfl (.look (Mirrored.session slot) fun session hsession => ?_)
      exact Mirrored.giveEnvironment target (m.keeps hsession _ List.mem_cons_self)
  | symbols =>
      refine .get rfl (.look (Mirrored.session slot) fun session hsession => ?_)
      exact .view (congrArg (fun table => table.symbols.map (·.spelling))
        (m.twin.agree.table (m.keeps hsession _ List.mem_cons_self)))
  | depth =>
      refine .get rfl (.look (Mirrored.session slot) fun session _ => ?_)
      exact .pure trivial
  | isSpecial name =>
      refine .get rfl (.bind (P := fun _ _ => True) (.bind (Mirrored.session slot) ?_) ?_)
      · exact fun _ _ _ => .pure trivial
      · exact fun _ _ _ => .pure trivial
  | register name native =>
      refine .get rfl (.look (Mirrored.session slot) fun before hbefore => ?_)
      exact .bind (Mirrored.registerNative hbefore _ hsupplied.native)
        fun m' after ⟨hkeeps, hnatives⟩ =>
          .modifyBoth ⟨m'.filled slot hkeeps hnatives, rfl, rfl, rfl⟩

theorem command {command : Command} (hsupplied : command.Hosts hosts)
    (hreleases : command.releases = false) : Mirrored m (fun _ _ => True) command.perform := by
  cases command with
  | value command => exact Mirrored.valueCommand command
  | environment command => exact Mirrored.environmentCommand command hreleases
  | session slot command => exact Mirrored.sessionCommand slot command hsupplied

end Mirrored

/-! ### Answers -/

theorem Command.eq_release {command : Command} (h : command.releases = true) :
    ∃ env, command = .environment (.release env) := by
  cases command with
  | environment command =>
      cases command with
      | release env => exact ⟨env, rfl⟩
      | _ => exact nomatch h
  | _ => exact nomatch h

namespace Mirror

theorem answer (m : Mirror hosts) {command : Command} (hsupplied : command.Hosts hosts)
    (hreleases : command.releases = false) :
    ∃ reply m', m.left.answer command = (reply, m'.left) ∧
      m.right.answer command = (reply, m'.right) ∧ m.Counts m' :=
  Pairing.InStep.answer (Mirrored.command hsupplied hreleases)

/-- **Both workspaces give the same replies** to all commands that do not release a frame. -/
theorem answerAll (m : Mirror hosts) {commands : List Command}
    (hsupplied : ∀ command ∈ commands, command.Hosts hosts)
    (hreleases : ∀ command ∈ commands, command.releases = false) :
    (m.left.answerAll commands).1 = (m.right.answerAll commands).1 := by
  induction commands generalizing m with
  | nil => rfl
  | cons command rest ih =>
      obtain ⟨hcommand, hrest⟩ := List.forall_mem_cons.1 hsupplied
      obtain ⟨hcommand', hrest'⟩ := List.forall_mem_cons.1 hreleases
      obtain ⟨reply, m', hleft, hright, -⟩ := m.answer hcommand hcommand'
      rw [Workspace.answerAll, Workspace.answerAll, hleft, hright]
      exact congrArg (reply :: ·) (ih m' hrest hrest')

end Mirror

/-! ### Any workspace and itself -/

theorem Store.find?_empty (item : Item) : Store.find? { arenas := #[{}] } item = none := by
  refine Store.find?_eq_none ?_
  have hextent : Store.extent { arenas := #[{}] } item.arena = {} := by
    cases item.arena <;> rfl
  rw [hextent]
  cases item <;> exact Nat.zero_le _

theorem Census.lists_empty : Census.Lists {} { arenas := #[{}] } fun _ => False where
  mem h := h.elim
  closed hitem := by
    rw [Census.mem_items, Store.find?_empty] at hitem
    rcases hitem with h | h
    · exact nomatch h.1
    · exact absurd h List.not_mem_nil
  filled {item} hlt := by cases item <;> exact absurd hlt (Nat.not_lt_zero _)

/-- A store and itself. -/
def Twin.alone (store : Store) (census : Option Census) {P : Item → Prop} (hclosed : store.Closed P)
    (hchained : store.Chained P) (hpresent : ∀ {item}, P item → (store.find? item).isSome = true)
    (hlisted : ∀ found, census = some found → found.Lists store P) : Twin fun _ => True where
  left := store
  right := store
  census := census
  intact := P
  agree _ _ := rfl
  closed := hclosed
  chained := hchained
  present := hpresent
  shared _ := trivial
  same _ := rfl
  size_eq := rfl
  listed := hlisted

namespace Mirror

/-- An empty workspace and itself. -/
def start (files : Files) (hosts : HostFunction → Prop)
    (hdiscreet : ∀ function, hosts function → function.Discreet) : Mirror hosts where
  twin := .alone { arenas := #[{}] } (some {}) (fun _ h => h.elim) (fun _ h => h.elim)
    (fun h => h.elim) fun _ hfound => Option.some.inj hfound ▸ Census.lists_empty
  sessions := []
  values := []
  environments := []
  files := files
  fuel := Session.defaultFuel
  keeps h := absurd h List.not_mem_nil
  supplied h := absurd h List.not_mem_nil
  discreet {function} := hdiscreet function
  value h := absurd h List.not_mem_nil
  environment h := absurd h List.not_mem_nil
  isOpen := ⟨trivial, Nat.one_pos⟩

/-- The left workspace of a mirror and itself. -/
def reflect (m : Mirror hosts) : Mirror hosts :=
  m.onto (.alone m.twin.left m.twin.census m.twin.closed m.twin.chained m.twin.present
    m.twin.listed) m.held_intact (Nat.le_refl _)

theorem release (m : Mirror hosts) {census : Census} (hcensus : m.twin.census = some census)
    {frame : FrameRef} (hframe : m.twin.intact (.frame frame)) :
    ∃ m' : Mirror hosts, (m.left.release frame).2 = m'.left ∧ m.Counts m' := by
  have hpresent := m.twin.present hframe
  have hclear := census.mayClear_release m.twin.left m.left.held frame
  have hreached : ∀ {item}, m.twin.left.Reaches (m.left.held.flatMap Hold.items) item →
      m.twin.intact item := fun hitem => hitem.induct m.held_intact m.twin.closed
  have hclosed : m.twin.left.Closed (m.twin.left.Reaches (m.left.held.flatMap Hold.items)) :=
    fun _ hitem _ hother => hitem.step hother
  have hchained := hclear.chained hpresent hclosed
    (fun other hother => m.twin.chained other (hreached hother))
    fun hitem => m.twin.present (hreached hitem)
  have hlists := (m.twin.listed census hcensus).release hpresent m.held_intact
  refine ⟨m.onto (.alone _ (some _) (hclear.closed hpresent hclosed) hchained
    (fun hitem => (hclear.isSome_eq hpresent _).trans (m.twin.present (hreached hitem)))
    fun _ hfound => Option.some.inj hfound ▸ hlists) (fun _ hitem => Store.reaches_of_mem hitem)
    (Nat.le_of_eq hclear.size_eq.symm), ?_, ?_⟩
  · show (Prod.mk _ (Workspace.mk _ (m.twin.census.map _) _ _ _ _ _)).2 = _
    rw [show m.left.census = some census from hcensus, hcensus]
    rfl
  · rw [Counts, hcensus]
    rfl

/-- **Whatever is done with a workspace**, it is the left one of a mirror. -/
theorem follow (m : Mirror hosts) (hcounts : m.twin.census.isSome = true) {command : Command}
    (hsupplied : command.Hosts hosts) :
    ∃ m' : Mirror hosts, (m.left.answer command).2 = m'.left ∧ m'.twin.census.isSome = true := by
  obtain ⟨census, hcensus⟩ := Option.isSome_iff_exists.1 hcounts
  cases hreleases : command.releases with
  | false =>
      obtain ⟨reply, m', hleft, -, hcounts'⟩ := m.answer hsupplied hreleases
      exact ⟨m', by rw [hleft], hcounts'.trans hcounts⟩
  | true =>
      obtain ⟨env, rfl⟩ := Command.eq_release hreleases
      cases hget : m.environments.get? env with
      | none =>
          exact ⟨m, congrArg Prod.snd (Workspace.answer_eq
            (WorkM.outcome_bind_error (WorkM.outcome_slot_none hget) _)), hcounts⟩
      | some frame =>
          have hframe := m.environment (Slots.mem_contents_of_get? hget)
          obtain ⟨m', hleft, hcounts'⟩ := m.release hcensus hframe
          have houtcome : (Command.environment (.release env)).perform.outcome m.left =
              (.ok (.released (m.left.release frame).1
                ((m.left.release frame).2.store.summary frame)), (m.left.release frame).2) :=
            (WorkM.outcome_bind_ok (WorkM.outcome_slot hget) _).trans rfl
          refine ⟨m', ?_, hcounts'.trans hcounts⟩
          rw [Workspace.answer_eq houtcome, hleft]

theorem followAll (m : Mirror hosts) (hcounts : m.twin.census.isSome = true)
    {commands : List Command} (hsupplied : ∀ command ∈ commands, command.Hosts hosts) :
    ∃ m' : Mirror hosts,
      (m.left.answerAll commands).2 = m'.left ∧ m'.twin.census.isSome = true := by
  induction commands generalizing m with
  | nil => exact ⟨m, rfl, hcounts⟩
  | cons command rest ih =>
      obtain ⟨hcommand, hrest⟩ := List.forall_mem_cons.1 hsupplied
      obtain ⟨m', hleft, hcounts'⟩ := m.follow hcounts hcommand
      obtain ⟨m'', hleft', hcounts''⟩ := ih m' hcounts' hrest
      refine ⟨m'', ?_, hcounts''⟩
      rw [← hleft', ← hleft]
      rfl

end Mirror

end SmallLisp
