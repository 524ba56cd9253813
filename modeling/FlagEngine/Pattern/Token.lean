/-! Pattern text cut into characters and escapes. A backslash at the very end is an escape of
nothing; whoever takes the token before it notices. -/
namespace FlagEngine.Pattern

inductive Token
  | char (c : Char)
  | escape (c : Char)
  deriving DecidableEq, Repr

structure Tokens where
  rest : List Token
  dangling : Bool

def tokens : List Char → Tokens
  | [] => ⟨[],false⟩
  | ['\\'] => ⟨[],true⟩
  | '\\' :: c :: cs => let t := tokens cs; ⟨.escape c :: t.rest,t.dangling⟩
  | c :: cs => let t := tokens cs; ⟨.char c :: t.rest,t.dangling⟩

/-- The characters a token was cut from. -/
def Token.chars : Token → List Char
  | .char c => [c]
  | .escape c => ['\\',c]

end FlagEngine.Pattern
