import Mathlib.Data.List.DropRight
import Xv6.Shell.Parser

/-! # The grammar of the shell

What the parser is for: the tokens of a line, and the trees that a list of
tokens derives. -/

namespace Xv6.Shell

abbrev Word := List UInt8

inductive Token where
  | word (word : Word)
  | less
  | great
  | append
  | bar
  | amp
  | semi
  | lparen
  | rparen
  deriving DecidableEq

/-- The operators of one character other than `>`. -/
def operators : List (Char × Token) :=
  [('|', .bar), ('(', .lparen), (')', .rparen), (';', .semi), ('&', .amp), ('<', .less)]

def operator (c : UInt8) : Option Token :=
  (operators.find? fun pair => byte pair.1 == c).map Prod.snd

/-- The token at the start of `c :: rest`, and what is left after it. -/
def tokenAt (c : UInt8) (rest : List UInt8) : Token × List UInt8 :=
  if c = byte '>' then
    if rest.head? = some (byte '>') then (.append, rest.tail) else (.great, rest)
  else
    match operator c with
    | some token => (token, rest)
    | none => (.word (c :: rest.takeWhile inWord), rest.dropWhile inWord)

/-- The first token, after the spaces before it. -/
def nextToken (s : List UInt8) : Option (Token × List UInt8) :=
  match s.dropWhile isSpace with
  | [] => none
  | c :: rest => some (tokenAt c rest)

def tokensWithin : Nat → List UInt8 → List Token
  | 0, _ => []
  | fuel + 1, s =>
    match nextToken s with
    | none => []
    | some (token, rest) => token :: tokensWithin fuel rest

/-- The tokens of a line; each has at least one character. -/
def tokens (s : List UInt8) : List Token := tokensWithin s.length s

/-- The mode and the descriptor of a redirection. -/
def Token.redirection : Token → Option (Nat × Nat)
  | .less => some (oRdonly, 0)
  | .great => some (oWronly ||| oCreate ||| oTrunc, 1)
  | .append => some (oWronly ||| oCreate, 1)
  | _ => none

structure Redir where
  file : Word
  mode : Nat
  fd : Nat

/-- Each redirection wraps the command so far. -/
def wrap (cmd : Cmd Word) (redirs : List Redir) : Cmd Word :=
  redirs.foldl (fun cmd redir => .redir cmd redir.file redir.mode redir.fd) cmd

/-- As many `&` wrap a command. -/
def backs : Nat → Cmd Word → Cmd Word
  | 0, cmd => cmd
  | n + 1, cmd => backs n (.back cmd)

/-- `redir*` -/
inductive Redirs : List Token → List Redir → Prop
  | nil : Redirs [] []
  | cons {token mode fd file ts redirs} : token.redirection = some (mode, fd) → Redirs ts redirs →
      Redirs (token :: .word file :: ts) (⟨file, mode, fd⟩ :: redirs)

/-- `(word redir*)*` -/
inductive Words : List Token → List Word → List Redir → Prop
  | nil : Words [] [] []
  | cons {word rs redirs ts words rest} : Redirs rs redirs → Words ts words rest →
      Words (.word word :: rs ++ ts) (word :: words) (redirs ++ rest)

inductive Nonterminal where
  | line
  | pipe
  | cmd

inductive Derives : Nonterminal → List Token → Cmd Word → Prop
  /-- `line ::= pipe '&'*` -/
  | line {ts cmd} (n : Nat) :
      Derives .pipe ts cmd → Derives .line (ts ++ List.replicate n .amp) (backs n cmd)
  /-- `line ::= pipe '&'* ';' line` -/
  | list {ts left us right} (n : Nat) : Derives .pipe ts left → Derives .line us right →
      Derives .line (ts ++ List.replicate n .amp ++ .semi :: us) (.list (backs n left) right)
  /-- `pipe ::= cmd` -/
  | single {ts cmd} : Derives .cmd ts cmd → Derives .pipe ts cmd
  /-- `pipe ::= cmd '|' pipe` -/
  | pipe {ts left us right} : Derives .cmd ts left → Derives .pipe us right →
      Derives .pipe (ts ++ .bar :: us) (.pipe left right)
  /-- `cmd ::= '(' line ')' redir*` -/
  | block {ts cmd rs redirs} : Derives .line ts cmd → Redirs rs redirs →
      Derives .cmd (.lparen :: ts ++ .rparen :: rs) (wrap cmd redirs)
  /-- `cmd ::= redir* (word redir*)*` -/
  | exec {rs redirs ts words rest} :
      Redirs rs redirs → Words ts words rest → words.length ≤ maxArgs - 1 →
      Derives .cmd (rs ++ ts) (wrap (.exec words) (redirs ++ rest))

/-! ## The tokens of a line -/

theorem length_dropWhile_le (p : UInt8 → Bool) (s : List UInt8) :
    (s.dropWhile p).length ≤ s.length :=
  (List.dropWhile_sublist p).length_le

theorem length_tokenAt_le (c : UInt8) (rest : List UInt8) :
    (tokenAt c rest).2.length ≤ rest.length := by
  rw [tokenAt]
  split
  · split
    · simp
    · simp
  · split
    · simp
    · exact length_dropWhile_le _ _

variable {rest s : List UInt8} {token : Token}

theorem nextToken_shorter (next : nextToken s = some (token, rest)) : rest.length < s.length := by
  rw [nextToken] at next
  split at next
  · cases next
  · rename_i c after equal
    have shorter := length_dropWhile_le isSpace s
    have le := length_tokenAt_le c after
    rw [equal, List.length_cons] at shorter
    rw [Option.some.inj next] at le
    exact Nat.lt_of_le_of_lt le shorter

theorem tokensWithin_of_le (enough : s.length ≤ fuel) (le : fuel ≤ more) :
    tokensWithin more s = tokensWithin fuel s := by
  induction fuel generalizing more s with
  | zero =>
    have empty : s = [] := List.length_eq_zero_iff.mp (Nat.le_zero.mp enough)
    cases more with
    | zero => rfl
    | succ more => rw [empty]; rfl
  | succ fuel induction =>
    cases more with
    | zero => omega
    | succ more =>
      rw [tokensWithin, tokensWithin]
      cases next : nextToken s with
      | none => rfl
      | some pair =>
        have shorter := nextToken_shorter next
        simp only
        rw [induction (by omega) (by omega)]

theorem tokens_of_none (next : nextToken s = none) : tokens s = [] := by
  rw [tokens]
  cases s with
  | nil => rfl
  | cons c rest => rw [List.length_cons, tokensWithin, next]

theorem tokens_of_some (next : nextToken s = some (token, rest)) :
    tokens s = token :: tokens rest := by
  have shorter := nextToken_shorter next
  cases s with
  | nil => cases shorter
  | cons c after =>
    rw [tokens, List.length_cons, tokensWithin, next]
    simp only
    rw [List.length_cons] at shorter
    rw [tokens, tokensWithin_of_le (Nat.le_refl _) (Nat.le_of_lt_succ shorter)]

theorem length_tokensWithin_le (fuel : Nat) (s : List UInt8) :
    (tokensWithin fuel s).length ≤ fuel := by
  induction fuel generalizing s with
  | zero => rfl
  | succ fuel induction =>
    rw [tokensWithin]
    split
    · simp
    · rw [List.length_cons]
      exact Nat.succ_le_succ (induction _)

theorem length_tokens_le (s : List UInt8) : (tokens s).length ≤ s.length :=
  length_tokensWithin_le s.length s

theorem nextToken_skip (s : List UInt8) : nextToken (s.dropWhile isSpace) = nextToken s := by
  rw [nextToken, nextToken, List.dropWhile_idempotent]

theorem tokens_skip (s : List UInt8) : tokens (s.dropWhile isSpace) = tokens s := by
  cases next : nextToken s with
  | none => rw [tokens_of_none next, tokens_of_none ((nextToken_skip s).trans next)]
  | some pair =>
    rw [tokens_of_some next, tokens_of_some ((nextToken_skip s).trans next)]

example :
    tokens ((['a', ' ', '>', '>', 'b', ';']).map byte) =
      [.word [byte 'a'], .append, .word [byte 'b'], .semi] := by
  decide

end Xv6.Shell
