import SmallLisp.Reader

/-!
# Errors

Every way in which reading or evaluating can fail is a cause of its own. A cause that quotes a
value keeps the value's printed form, because the value may have changed by the time the error
is shown. The wording of all causes is in the `message` functions here.
-/

namespace SmallLisp

/-- How many arguments are expected. -/
inductive Expected where
  | exactly (count : Nat)
  | atLeast (count : Nat)
  | twoOrThree
  deriving DecidableEq

namespace Expected

/-- A count of arguments in words. -/
def counted (count : Nat) : String :=
  Decimal.ofNat count ++ if count = 1 then " argument" else " arguments"

/-- The expectation in words. -/
def phrase : Expected → String
  | exactly count => counted count
  | atLeast count => "at least " ++ counted count
  | twoOrThree => "2 or 3 arguments"

/-- The number of arguments meets the expectation. -/
def admits : Expected → Nat → Bool
  | exactly count, got => got = count
  | atLeast count, got => count ≤ got
  | twoOrThree, got => got = 2 || got = 3

end Expected

/-- A call with the wrong number of arguments. -/
structure ArityFault where
  who : String
  expected : Expected
  got : Nat
  deriving DecidableEq

/-- Why something cannot be called. -/
inductive CallFault where
  | unboundOperator (name : Symbol)
  | boundTo (name : Symbol) (value : String)
  | evaluatedTo (operator value : String)
  | unknownBuiltin (name : Symbol)
  | isMacro (value : String)
  | notFunction (value : String)
  deriving DecidableEq

/-- A value of the wrong kind. -/
inductive TypeFault where
  | circularList
  | improperList (ending : String)
  | notPair (who type value : String)
  | notMutablePair (who value : String)
  | notInteger (who type value : String)
  | notName (who value : String)
  | notArgumentList (value : String)
  | notSpliceable (value : String)
  deriving DecidableEq

/-- Any other reason why evaluation stops. -/
inductive EvalFault where
  | paramsNotList (spec : String)
  | restNotLast (spec : String)
  | malformedRest (item : String)
  | paramNotSymbol (position : Nat) (item : String)
  | duplicateParam (name : Symbol) (spec : String)
  | notEvaluable (form : String)
  | malformedSpecial (name : Symbol) (form : String)
  | improperArguments (rest : String)
  | notOperator (operator form : String)
  | strayUnquote
  | overflow (who : String)
  | divisionByZero
  | unreadableFile (path reason : String)
  /-- Raised by a function of the host. -/
  | raised (message : String)
  deriving DecidableEq

/-- Why reading or evaluating failed. -/
inductive Error where
  | text (cause : TextError)
  | unboundSymbol (name : Symbol)
  | call (cause : CallFault)
  | arity (cause : ArityFault)
  | type (cause : TypeFault)
  | eval (cause : EvalFault)
  | recursionLimit (limit : Nat)
  deriving DecidableEq

/-- The wording of a wrong number of arguments. -/
def ArityFault.message (fault : ArityFault) : String :=
  fault.who ++ ": expected " ++ fault.expected.phrase ++ ", got " ++ Decimal.ofNat fault.got

/-- The wording of a failed call. -/
def CallFault.message : CallFault → String
  | unboundOperator name => name.spelling ++ " is not bound"
  | boundTo name value => name.spelling ++ " is bound to " ++ value ++ ", not a function"
  | evaluatedTo operator value => operator ++ " evaluated to " ++ value ++ ", not a function"
  | unknownBuiltin name => "no builtin named " ++ name.spelling
  | isMacro value => value ++ " is a macro and cannot be applied"
  | notFunction value => value ++ " is not a function"

/-- The wording of a value of the wrong kind. -/
def TypeFault.message : TypeFault → String
  | circularList => "expected a proper list, got a circular list"
  | improperList ending => "expected a proper list, got one ending in " ++ ending
  | notPair who type value => who ++ ": expected a pair, got " ++ type ++ " " ++ value
  | notMutablePair who value => who ++ ": expected a pair, got " ++ value
  | notInteger who type value => who ++ ": expected an integer, got " ++ type ++ " " ++ value
  | notName who value => who ++ ": expected a symbol as the name, got " ++ value
  | notArgumentList value => "apply: last argument must be a proper list, got " ++ value
  | notSpliceable value => "unquote-splicing: expected a proper list, got " ++ value

/-- The wording of any other reason why evaluation stops. -/
def EvalFault.message : EvalFault → String
  | paramsNotList spec => "parameter list must be a proper list, got " ++ spec
  | restNotLast spec => "&rest parameter must be the last parameter in " ++ spec
  | malformedRest item => "malformed &rest parameter " ++ item
  | paramNotSymbol position item =>
      "parameter " ++ Decimal.ofNat position ++ " must be a symbol, got " ++ item
  | duplicateParam name spec => "duplicate parameter " ++ name.spelling ++ " in " ++ spec
  | notEvaluable form => "cannot evaluate " ++ form
  | malformedSpecial name form => name.spelling ++ ": malformed argument list in " ++ form
  | improperArguments rest => "improper argument list " ++ rest
  | notOperator operator form => operator ++ " is not an operator in " ++ form
  | strayUnquote => "unquote used outside of a quasiquote"
  | overflow who => who ++ ": integer overflow"
  | divisionByZero => "/: division by zero"
  | unreadableFile path reason => "failed to read '" ++ path ++ "': " ++ reason
  | raised message => message

/-- The wording of a text that has no meaning. -/
def TextError.message : TextError → String
  | scan cause => cause.message
  | read cause => cause.message

namespace Error

/-- The wording of an error. -/
def message : Error → String
  | text cause => cause.message
  | unboundSymbol name => name.spelling
  | call cause => cause.message
  | arity cause => cause.message
  | type cause => cause.message
  | eval cause => cause.message
  | recursionLimit limit => "evaluation nested deeper than " ++ Decimal.ofNat limit ++ " levels"

/-- The words for the kind of an error. -/
def heading : Error → String
  | text (.scan _) => "lex error"
  | text (.read _) => "parse error"
  | unboundSymbol _ => "unbound symbol"
  | call _ => "not a function"
  | arity _ => "arity error"
  | type _ => "type error"
  | eval _ => "eval error"
  | recursionLimit _ => "recursion limit exceeded"

/-- An error as it is shown to a person. -/
def describe (error : Error) : String :=
  error.heading ++ ": " ++ error.message

end Error

end SmallLisp
