import Mathlib.Data.List.Forall2
import Mathlib.Data.List.GetD
import Xv6.Foundation.Related
import Xv6.Shell.Descent

/-! # The shell's parser and its grammar

The cursor in the line that was read stands for the tokens after it, and a
pointer to a word for the word. -/

namespace Xv6.Shell

/-! ## Two scanners that agree -/

namespace Cmd

/-- The same tree with related words. -/
inductive Rel (Stands : α → β → Prop) : Cmd α → Cmd β → Prop
  | exec {argv words} : List.Forall₂ Stands argv words → Rel Stands (.exec argv) (.exec words)
  | redir {cmd tree file word mode fd} : Rel Stands cmd tree → Stands file word →
      Rel Stands (.redir cmd file mode fd) (.redir tree word mode fd)
  | pipe {left right leftTree rightTree} : Rel Stands left leftTree → Rel Stands right rightTree →
      Rel Stands (.pipe left right) (.pipe leftTree rightTree)
  | list {left right leftTree rightTree} : Rel Stands left leftTree → Rel Stands right rightTree →
      Rel Stands (.list left right) (.list leftTree rightTree)
  | back {cmd tree} : Rel Stands cmd tree → Rel Stands (.back cmd) (.back tree)

variable {Stands : α → β → Prop} {cmd : Cmd α} {tree : Cmd β}

theorem Rel.push (rel : Rel Stands cmd tree) (stands : Stands a b) :
    Rel Stands (cmd.push a) (tree.push b) := by
  induction rel with
  | exec words => exact .exec (List.rel_append words (.cons stands .nil))
  | redir rel file induction => exact .redir induction file
  | pipe left right => exact .pipe left right
  | list left right => exact .list left right
  | back rel => exact .back rel

theorem Rel.redirect (tok : UInt8) (rel : Rel Stands cmd tree) (stands : Stands a b) :
    Rel Stands (redirect tok cmd a) (redirect tok tree b) := by
  simp only [Shell.redirect]
  split
  · exact .redir rel stands
  · split
    · exact .redir rel stands
    · split
      · exact .redir rel stands
      · exact rel

end Cmd

/-- Where `At` relates two cursors, the scanners see the same token, and `Stands`
relates the words that they return. -/
structure Simulates (input : Scanner σ α) (spec : Scanner τ β) (At : σ → τ → Prop)
    (Stands : α → β → Prop) : Prop where
  peek : ∀ toks s t, toks ⊆ symbols → At s t →
    Related (fun a b => a.1 = b.1 ∧ At a.2 b.2) (input.peek toks s) (spec.peek toks t)
  gettoken : ∀ s t, At s t →
    Related (fun a b => a.ret = b.ret ∧ (a.ret = byte 'a' → Stands a.word b.word) ∧ At a.ps b.ps)
      (input.gettoken s) (spec.gettoken t)

namespace Simulates

variable {input : Scanner σ α} {spec : Scanner τ β} {At : σ → τ → Prop}
  {Stands : α → β → Prop} {s : σ} {t : τ} {cmd : Cmd α} {tree : Cmd β}

/-- Related trees and cursors. -/
def Parsed (At : σ → τ → Prop) (Stands : α → β → Prop) (a : Cmd α × σ) (b : Cmd β × τ) : Prop :=
  a.1.Rel Stands b.1 ∧ At a.2 b.2

section

variable (sim : Simulates input spec At Stands)

include sim

theorem parseredirs (fuel : Nat) (rel : cmd.Rel Stands tree) (here : At s t) :
    Related (Parsed At Stands) (parseredirs input fuel cmd s) (parseredirs spec fuel tree t) := by
  induction fuel generalizing cmd tree s t with
  | zero => exact .error _
  | succ fuel induction =>
    rw [Shell.parseredirs, Shell.parseredirs]
    apply Related.bind (sim.peek _ _ _ (by decide) here)
    intro more more' holds
    rw [holds.1]
    split
    · apply Related.bind (sim.gettoken _ _ holds.2)
      intro tok tok' token
      apply Related.bind (sim.gettoken _ _ token.2.2)
      intro file file' word
      rw [token.1, word.1]
      split
      · exact .error _
      · rename_i isWord
        exact induction (rel.redirect _ (word.2.1 (word.1.trans (not_not.mp isWord)))) word.2.2
    · exact .ok ⟨rel, holds.2⟩

omit sim in
theorem store (argc : Nat) : Related (fun _ _ => True) (store argc) (store argc) := by
  rw [Shell.store]
  split
  · exact .ok trivial
  · exact .error _

theorem parseargs (fuel argc : Nat) (rel : cmd.Rel Stands tree) (here : At s t) :
    Related (Parsed At Stands) (parseargs input fuel cmd argc s)
      (parseargs spec fuel tree argc t) := by
  induction fuel generalizing cmd tree argc s t with
  | zero => exact .error _
  | succ fuel induction =>
    rw [Shell.parseargs, Shell.parseargs]
    apply Related.bind (sim.peek _ _ _ (by decide) here)
    intro done done' holds
    rw [holds.1]
    split
    · apply Related.bind (store argc)
      intro _ _ _
      exact .ok ⟨rel, holds.2⟩
    · apply Related.bind (sim.gettoken _ _ holds.2)
      intro tok tok' token
      rw [token.1]
      split
      · apply Related.bind (store argc)
        intro _ _ _
        exact .ok ⟨rel, token.2.2⟩
      · split
        · exact .error _
        · rename_i isWord
          apply Related.bind (store argc)
          intro _ _ _
          split
          · exact .error _
          · have stands := token.2.1 (token.1.trans (not_not.mp isWord))
            apply Related.bind (sim.parseredirs fuel (rel.push stands) token.2.2)
            intro redirected redirected' parsed
            exact induction (argc + 1) parsed.1 parsed.2

theorem parseback (fuel : Nat) (rel : cmd.Rel Stands tree) (here : At s t) :
    Related (Parsed At Stands) (parseback input fuel cmd s) (parseback spec fuel tree t) := by
  induction fuel generalizing cmd tree s t with
  | zero => exact .error _
  | succ fuel induction =>
    rw [Shell.parseback, Shell.parseback]
    apply Related.bind (sim.peek _ _ _ (by decide) here)
    intro more more' holds
    rw [holds.1]
    split
    · apply Related.bind (sim.gettoken _ _ holds.2)
      intro tok tok' token
      exact induction (.back rel) token.2.2
    · exact .ok ⟨rel, holds.2⟩

theorem parse (fuel : Nat) :
    (∀ s t, At s t → Related (Parsed At Stands) (parseline input fuel s) (parseline spec fuel t)) ∧
    (∀ s t, At s t → Related (Parsed At Stands) (parsepipe input fuel s) (parsepipe spec fuel t)) ∧
    (∀ s t, At s t → Related (Parsed At Stands) (parseexec input fuel s) (parseexec spec fuel t)) ∧
    (∀ s t, At s t →
      Related (Parsed At Stands) (parseblock input fuel s) (parseblock spec fuel t)) := by
  induction fuel with
  | zero =>
    exact ⟨fun _ _ _ => .error _, fun _ _ _ => .error _, fun _ _ _ => .error _,
      fun _ _ _ => .error _⟩
  | succ fuel induction =>
    rcases induction with ⟨line, pipe, exec, block⟩
    refine ⟨?_, ?_, ?_, ?_⟩
    · intro s t here
      rw [Shell.parseline, Shell.parseline]
      apply Related.bind (pipe _ _ here)
      intro first first' parsed
      apply Related.bind (sim.parseback fuel parsed.1 parsed.2)
      intro second second' parsed
      apply Related.bind (sim.peek _ _ _ (by decide) parsed.2)
      intro more more' holds
      rw [holds.1]
      split
      · apply Related.bind (sim.gettoken _ _ holds.2)
        intro tok tok' token
        apply Related.bind (line _ _ token.2.2)
        intro right right' parsedRight
        exact .ok ⟨.list parsed.1 parsedRight.1, parsedRight.2⟩
      · exact .ok ⟨parsed.1, holds.2⟩
    · intro s t here
      rw [Shell.parsepipe, Shell.parsepipe]
      apply Related.bind (exec _ _ here)
      intro first first' parsed
      apply Related.bind (sim.peek _ _ _ (by decide) parsed.2)
      intro more more' holds
      rw [holds.1]
      split
      · apply Related.bind (sim.gettoken _ _ holds.2)
        intro tok tok' token
        apply Related.bind (pipe _ _ token.2.2)
        intro right right' parsedRight
        exact .ok ⟨.pipe parsed.1 parsedRight.1, parsedRight.2⟩
      · exact .ok ⟨parsed.1, holds.2⟩
    · intro s t here
      rw [Shell.parseexec, Shell.parseexec]
      apply Related.bind (sim.peek _ _ _ (by decide) here)
      intro opened opened' holds
      rw [holds.1]
      split
      · exact block _ _ holds.2
      · apply Related.bind (sim.parseredirs fuel (.exec .nil) holds.2)
        intro ret ret' parsed
        exact sim.parseargs fuel 0 parsed.1 parsed.2
    · intro s t here
      rw [Shell.parseblock, Shell.parseblock]
      apply Related.bind (sim.peek _ _ _ (by decide) here)
      intro opened opened' holds
      rw [holds.1]
      split
      · apply Related.bind (sim.gettoken _ _ holds.2)
        intro tok tok' token
        apply Related.bind (line _ _ token.2.2)
        intro inner inner' parsed
        apply Related.bind (sim.peek _ _ _ (by decide) parsed.2)
        intro closed closed' holds
        rw [holds.1]
        split
        · apply Related.bind (sim.gettoken _ _ holds.2)
          intro tok tok' token
          exact sim.parseredirs fuel parsed.1 token.2.2
        · exact .error _
      · exact .error _

end

end Simulates

/-! ## The cursor in the line -/

namespace Text

variable {text : Text} {s : Nat}

/-- What stands at and after an address. -/
def rest (text : Text) (s : Nat) : List UInt8 := text.bytes.drop s

theorem rest_nil_iff (inside : s ≤ text.es) : text.rest s = [] ↔ s = text.es := by
  rw [rest, List.drop_eq_nil_iff]
  rw [es] at inside ⊢
  omega

theorem rest_cons (equal : text.rest s = c :: after) :
    s < text.es ∧ text.bytes.getD s 0 = c ∧ text.rest (s + 1) = after ∧ c ≠ 0 := by
  have inside : s < text.es := by
    by_contra outside
    rw [rest, List.drop_eq_nil_of_le (Nat.le_of_not_lt outside)] at equal
    cases equal
  have split : text.bytes.drop s = text.bytes[s] :: text.bytes.drop (s + 1) :=
    List.drop_eq_getElem_cons inside
  rw [rest, split] at equal
  cases equal
  refine ⟨inside, ?_, rfl, ?_⟩
  · exact List.getD_eq_getElem _ _ inside
  · intro zero
    apply text.nonzero
    rw [← zero]
    exact List.getElem_mem inside

theorem read_cons (equal : text.rest s = c :: after) : text.read s = .ok c := by
  rcases rest_cons equal with ⟨inside, value, _, _⟩
  rw [read, if_pos inside, value]

theorem read_nil (inside : s ≤ text.es) (equal : text.rest s = []) : text.read s = .ok 0 := by
  rw [rest_nil_iff inside] at equal
  rw [read, if_neg (by omega), if_pos equal]

/-- The address that `scan` stops at. -/
def after (text : Text) (while_ : UInt8 → Bool) (s : Nat) : Nat :=
  s + ((text.rest s).takeWhile while_).length

theorem rest_after (while_ : UInt8 → Bool) :
    text.rest (text.after while_ s) = (text.rest s).dropWhile while_ := by
  have split : (text.rest s).takeWhile while_ ++ (text.rest s).dropWhile while_ = text.rest s :=
    List.takeWhile_append_dropWhile
  calc text.rest (text.after while_ s)
    _ = (text.rest s).drop ((text.rest s).takeWhile while_).length := by
        rw [after, rest, rest, List.drop_drop]
    _ = ((text.rest s).takeWhile while_ ++ (text.rest s).dropWhile while_).drop
          ((text.rest s).takeWhile while_).length := by rw [split]
    _ = (text.rest s).dropWhile while_ := List.drop_left

theorem after_le (while_ : UInt8 → Bool) (inside : s ≤ text.es) :
    text.after while_ s ≤ text.es := by
  have shorter : ((text.rest s).takeWhile while_).length ≤ (text.rest s).length :=
    (List.takeWhile_sublist while_).length_le
  rw [rest, List.length_drop] at shorter
  rw [after, rest]
  rw [es] at inside ⊢
  omega

theorem scan_eq (while_ : UInt8 → Bool) (inside : s ≤ text.es) (enough : text.es - s < fuel) :
    text.scan while_ fuel s = .ok (text.after while_ s) := by
  induction fuel generalizing s with
  | zero => cases enough
  | succ fuel induction =>
    rw [scan]
    cases equal : text.rest s with
    | nil =>
      have atEnd := (rest_nil_iff inside).mp equal
      rw [if_neg (by omega), after, equal]
      rfl
    | cons c after =>
      rcases rest_cons equal with ⟨below, _, following, _⟩
      rw [if_pos below, read_cons equal, Text.after, equal, List.takeWhile_cons]
      show (if while_ c then _ else _) = _
      split
      · rw [induction (by omega) (by omega), Text.after, following, List.length_cons]
        congr 1
        omega
      · rfl

theorem skip_eq (inside : s ≤ text.es) : text.skip s = .ok (text.after isSpace s) :=
  scan_eq isSpace inside (by omega)

/-- A span of a word: all its characters are in words, and it ends where they end. -/
structure Reads (text : Text) (span : Span) (word : Word) : Prop where
  word : (text.rest span.q).takeWhile inWord = word
  ends : span.eq = text.after inWord span.q
  inside : span.q ≤ text.es

/-- The cursor stands for the tokens after it. -/
def At (text : Text) (s : Nat) (ts : List Token) : Prop :=
  s ≤ text.es ∧ ts = tokens (text.rest s)

theorem operator_eq_none_iff : operator c = none ↔ ∀ pair ∈ operators, byte pair.1 ≠ c := by
  rw [operator, Option.map_eq_none_iff, List.find?_eq_none]
  simp only [beq_iff_eq, ne_eq]

variable {token : Token}

theorem operator_eq_some (found : operator c = some token) :
    ∃ pair ∈ operators, byte pair.1 = c ∧ pair.2 = token := by
  rcases Option.map_eq_some_iff.mp found with ⟨pair, first, equal⟩
  exact ⟨pair, List.mem_of_find?_eq_some first, by simpa using List.find?_some first, equal⟩

theorem operators_code : ∀ pair ∈ operators, pair.2.code = byte pair.1 ∧
    pair.2.first = byte pair.1 ∧ pair.2.code ≠ byte 'a' ∧ byte pair.1 ≠ byte '>' := by
  decide

theorem inWord_of_operator (none : operator c = none) (great : c ≠ byte '>')
    (space : isSpace c = false) : inWord c = true := by
  rw [operator_eq_none_iff] at none
  have symbol : strchr symbols c = false := by
    have bar := none ('|', .bar) (by decide)
    have lparen := none ('(', .lparen) (by decide)
    have rparen := none (')', .rparen) (by decide)
    have semi := none (';', .semi) (by decide)
    have amp := none ('&', .amp) (by decide)
    have less := none ('<', .less) (by decide)
    simp [strchr, symbols, bar, lparen, rparen, semi, amp, less, great.symm]
  rw [isSpace] at space
  rw [inWord, space, symbol]
  rfl

variable {toks : List Char}

theorem not_strchr_of_inWord (among : toks ⊆ symbols) (word : inWord c = true) :
    strchr toks c = false := by
  rw [inWord, Bool.and_eq_true, Bool.not_eq_true', Bool.not_eq_true'] at word
  have none := word.2
  rw [strchr, List.any_eq_false] at none ⊢
  intro d member
  exact none d (among member)

theorem strchr_tokenAt {c : UInt8} {after : List UInt8} (among : toks ⊆ symbols)
    (space : isSpace c = false) : strchr toks (tokenAt c after).1.first = strchr toks c := by
  rw [tokenAt]
  split
  · rename_i great
    rw [great]
    split <;> rfl
  · rename_i great
    split
    · rename_i token found
      rcases operator_eq_some found with ⟨pair, member, equal, token⟩
      rw [← token, ← equal, (operators_code pair member).2.1]
    · rename_i none
      rw [not_strchr_of_inWord among (inWord_of_operator none great space)]
      exact not_strchr_of_inWord among (show inWord (byte 'a') = true by decide)

variable {following : List UInt8}

theorem token_word (inside : s ≤ text.es) (equal : text.rest s = c :: following)
    (great : c ≠ byte '>') (none : operator c = none) :
    text.token s = .ok (byte 'a', text.after inWord s) := by
  rw [operator_eq_none_iff] at none
  have nonzero := (rest_cons equal).2.2.2
  have bar := none ('|', .bar) (by decide)
  have lparen := none ('(', .lparen) (by decide)
  have rparen := none (')', .rparen) (by decide)
  have semi := none (';', .semi) (by decide)
  have amp := none ('&', .amp) (by decide)
  have less := none ('<', .less) (by decide)
  rw [token, read_cons equal]
  show (if c = 0 then _ else _) = _
  rw [if_neg nonzero, if_neg, if_neg great, scan_eq inWord inside (by omega)]
  · rfl
  · intro one
    rcases one with one | one | one | one | one | one
    · exact bar one.symm
    · exact lparen one.symm
    · exact rparen one.symm
    · exact semi one.symm
    · exact amp one.symm
    · exact less one.symm

theorem token_operator (equal : text.rest s = c :: following) (found : operator c = some token) :
    text.token s = .ok (c, s + 1) := by
  have nonzero := (rest_cons equal).2.2.2
  rcases operator_eq_some found with ⟨pair, member, value, _⟩
  have one : ∀ pair ∈ operators, byte pair.1 = byte '|' ∨ byte pair.1 = byte '(' ∨
      byte pair.1 = byte ')' ∨ byte pair.1 = byte ';' ∨ byte pair.1 = byte '&' ∨
      byte pair.1 = byte '<' := by decide
  rw [Text.token, read_cons equal]
  show (if c = 0 then _ else _) = _
  rw [if_neg nonzero, if_pos (value ▸ one pair member)]

theorem token_great (equal : text.rest s = byte '>' :: following) :
    text.token s = if following.head? = some (byte '>') then .ok (byte '+', s + 2)
      else .ok (byte '>', s + 1) := by
  rcases rest_cons equal with ⟨inside, _, next, nonzero⟩
  rw [token, read_cons equal]
  show (text.read (s + 1) >>= fun d => _) = _
  cases following with
  | nil =>
    rw [read_nil (by omega) next]
    rfl
  | cons d after =>
    rw [read_cons next]
    show (if d = byte '>' then _ else _) = _
    simp

theorem token_eq (inside : s ≤ text.es) (equal : text.rest s = c :: following)
    (space : isSpace c = false) :
    ∃ eq, text.token s = .ok ((tokenAt c following).1.code, eq) ∧ eq ≤ text.es ∧
      text.rest eq = (tokenAt c following).2 ∧
      ((tokenAt c following).1.code = byte 'a' →
        text.Reads ⟨s, eq⟩ (tokenAt c following).1.text) := by
  rcases rest_cons equal with ⟨below, _, next, _⟩
  rw [tokenAt]
  split
  · rename_i great
    rw [great] at equal
    rw [token_great equal]
    cases following with
    | nil => exact ⟨s + 1, rfl, below, next, fun word => by cases word⟩
    | cons d after =>
      split
      · exact ⟨s + 2, rfl, (rest_cons next).1, (rest_cons next).2.2.1, fun word => by cases word⟩
      · exact ⟨s + 1, rfl, below, next, fun word => by cases word⟩
  · rename_i great
    split
    · rename_i token found
      rcases operator_eq_some found with ⟨pair, member, value, same⟩
      rcases operators_code pair member with ⟨code, _, noWord, _⟩
      rw [same] at code noWord
      refine ⟨s + 1, ?_, below, next, fun word => absurd word noWord⟩
      rw [token_operator equal found, code, value]
    · rename_i none
      have word := inWord_of_operator none great space
      have taken : (text.rest s).takeWhile inWord = c :: following.takeWhile inWord := by
        rw [equal, List.takeWhile_cons, if_pos word]
      refine ⟨text.after inWord s, token_word inside equal great none, after_le inWord inside, ?_,
        fun _ => ⟨taken, rfl, inside⟩⟩
      rw [rest_after, equal, List.dropWhile_cons, if_pos word]

/-- After the spaces there is the end of the line, or the first character of a token. -/
theorem dropWhile_isSpace_cons {bytes after : List UInt8}
    (equal : bytes.dropWhile isSpace = c :: after) : isSpace c = false := by
  have head := List.head?_dropWhile_not isSpace bytes
  rw [equal] at head
  simpa using head

theorem at_skip (inside : s ≤ text.es) (here : ts = tokens (text.rest s)) :
    text.At (text.after isSpace s) ts := by
  refine ⟨after_le isSpace inside, ?_⟩
  rw [here, rest_after, tokens_skip]

theorem scanner_simulates (text : Text) :
    Simulates text.scanner tokenScanner text.At text.Reads where
  peek := by
    intro toks s ts among here
    rcases here with ⟨inside, here⟩
    have there := at_skip inside here
    show Related _ (text.peek toks s) (.ok (starts toks ts, ts))
    rw [peek, skip_eq inside]
    show Related _ (text.read (text.after isSpace s) >>= _) _
    cases equal : (text.rest s).dropWhile isSpace with
    | nil =>
      have none : nextToken (text.rest s) = none := by rw [nextToken, equal]
      rw [read_nil there.1 (by rw [rest_after, equal]), here, tokens_of_none none]
      refine .ok ⟨rfl, ?_⟩
      rw [← tokens_of_none none, ← here]
      exact there
    | cons c after =>
      have some : nextToken (text.rest s) =
          some ((tokenAt c after).1, (tokenAt c after).2) := by rw [nextToken, equal]
      have rest : text.rest (text.after isSpace s) = c :: after := by rw [rest_after, equal]
      have space := dropWhile_isSpace_cons equal
      have nonzero := (rest_cons rest).2.2.2
      rw [read_cons rest]
      refine .ok ⟨?_, there⟩
      rw [here, tokens_of_some some, starts, strchr_tokenAt among space]
      simp [nonzero]
  gettoken := by
    intro s ts here
    rcases here with ⟨inside, here⟩
    have there := at_skip inside here
    show Related _ (text.gettoken s) (.ok (take ts))
    rw [gettoken, skip_eq inside]
    show Related _ (text.token (text.after isSpace s) >>= _) _
    cases equal : (text.rest s).dropWhile isSpace with
    | nil =>
      have none : nextToken (text.rest s) = none := by rw [nextToken, equal]
      have atEnd : text.rest (text.after isSpace s) = [] := by rw [rest_after, equal]
      rw [token, read_nil there.1 atEnd]
      show Related _ (text.skip (text.after isSpace s) >>= _) _
      rw [skip_eq there.1, here, tokens_of_none none]
      refine .ok ⟨rfl, fun word => (by cases word), ?_⟩
      show text.At _ []
      rw [← tokens_of_none none, ← here]
      exact at_skip there.1 there.2
    | cons c after =>
      have some : nextToken (text.rest s) =
          some ((tokenAt c after).1, (tokenAt c after).2) := by rw [nextToken, equal]
      have rest : text.rest (text.after isSpace s) = c :: after := by rw [rest_after, equal]
      rcases token_eq there.1 rest (dropWhile_isSpace_cons equal) with
        ⟨eq, taken, insideEq, following, reads⟩
      rw [taken]
      show Related _ (text.skip eq >>= _) _
      rw [skip_eq insideEq, here, tokens_of_some some]
      exact .ok ⟨rfl, reads, at_skip insideEq (by rw [following]; rfl)⟩

end Text

/-! ## The words of the tree -/

/-- The words of a tree in the order in which `nulterminate` ends them. -/
def Cmd.words : Cmd α → List α
  | .exec argv => argv
  | .redir cmd file _ _ => cmd.words ++ [file]
  | .pipe left right => left.words ++ right.words
  | .list left right => left.words ++ right.words
  | .back cmd => cmd.words

theorem nulterminate_eq (cmd : Cmd Span) (buffer : List UInt8) :
    nulterminate cmd buffer =
      cmd.words.foldlM (fun buffer word => terminate buffer word.eq) buffer := by
  induction cmd generalizing buffer with
  | exec argv => rfl
  | redir cmd file mode fd induction =>
    rw [nulterminate, Cmd.words, List.foldlM_append, induction]
    simp
  | pipe left right inductionLeft inductionRight | list left right inductionLeft inductionRight =>
    rw [nulterminate, Cmd.words, List.foldlM_append, inductionLeft]
    simp only [inductionRight]
  | back cmd induction => rw [nulterminate, Cmd.words, induction]

/-- The line with some words terminated: the characters of words are still there. -/
structure Kept (text : Text) (buffer : List UInt8) : Prop where
  length : buffer.length = text.es + 1
  kept : ∀ (i : Nat) c, text.bytes[i]? = some c → inWord c = true → buffer[i]? = some c

namespace Text.Reads

variable {text : Text} {span : Span} {word : Word} {buffer : List UInt8}

theorem rest_eq (reads : text.Reads span word) :
    text.rest span.q = word ++ text.rest span.eq := by
  rw [reads.ends, rest_after, ← reads.word, List.takeWhile_append_dropWhile]

theorem eq_le (reads : text.Reads span word) : span.eq ≤ text.es := by
  rw [reads.ends]
  exact after_le inWord reads.inside

theorem eq_eq (reads : text.Reads span word) : span.eq = span.q + word.length := by
  rw [reads.ends, after, reads.word]

variable {c : UInt8}

section

variable (reads : text.Reads span word)

include reads

theorem inWord_of_mem (member : c ∈ word) : inWord c = true := by
  rw [← reads.word] at member
  exact List.mem_takeWhile_imp member

theorem bytes_eq (inside : i < word.length) : text.bytes[span.q + i]? = word[i]? := by
  have whole : (text.rest span.q)[i]? = word[i]? := by
    rw [reads.rest_eq, List.getElem?_append_left inside]
  rw [← whole, rest, List.getElem?_drop]

theorem stops (there : text.bytes[span.eq]? = some c) : inWord c = false := by
  have head : (text.rest span.eq).head? = some c := by
    rw [rest, List.head?_drop, there]
  rw [reads.ends, rest_after] at head
  have stopped := List.head?_dropWhile_not inWord (text.rest span.q)
  rw [head] at stopped
  simpa using stopped

theorem terminate (kept : Kept text buffer) :
    terminate buffer span.eq = .ok (buffer.set span.eq 0) ∧ Kept text (buffer.set span.eq 0) := by
  have inside := reads.eq_le
  rw [Shell.terminate, if_pos (by rw [kept.length]; omega)]
  refine ⟨rfl, ⟨by rw [List.length_set, kept.length], ?_⟩⟩
  intro i c there word
  rw [List.getElem?_set_ne, kept.kept i c there word]
  intro equal
  rw [← equal] at there
  rw [reads.stops there] at word
  cases word

theorem cstring (kept : Kept text buffer) (terminated : buffer[span.eq]? = some 0) :
    cstring buffer span.q = word := by
  have front : (buffer.drop span.q).take word.length = word := by
    apply List.ext_getElem?
    intro i
    rw [List.getElem?_take]
    split
    · rename_i inside
      have there := reads.bytes_eq inside
      rw [List.getElem?_eq_getElem inside] at there ⊢
      rw [List.getElem?_drop]
      exact kept.kept _ _ there (reads.inWord_of_mem (List.getElem_mem inside))
    · rename_i outside
      rw [List.getElem?_eq_none (Nat.le_of_not_lt outside)]
  have zero : ((buffer.drop span.q).drop word.length).head? = some 0 := by
    rw [List.drop_drop, List.head?_drop, ← reads.eq_eq, terminated]
  have nonzero : ∀ c ∈ word, decide (c ≠ 0) = true := by
    intro c member
    rw [decide_eq_true_iff]
    intro equal
    apply text.nonzero
    rw [← equal]
    have inRest : c ∈ text.rest span.q := by
      rw [reads.rest_eq]
      exact List.mem_append_left _ member
    exact List.mem_of_mem_drop inRest
  rw [Shell.cstring, ← List.take_append_drop word.length (buffer.drop span.q), front,
    List.takeWhile_append_of_pos nonzero]
  cases after : (buffer.drop span.q).drop word.length with
  | nil => rw [after] at zero; cases zero
  | cons c following =>
    rw [after] at zero
    cases zero
    simp

end

end Text.Reads

variable {buffer : List UInt8}

theorem terminate_all {text : Text} {spans : List Span}
    (reads : ∀ span ∈ spans, ∃ word, text.Reads span word) (kept : Kept text buffer) :
    ∃ after, spans.foldlM (fun buffer word => terminate buffer word.eq) buffer = .ok after ∧
      Kept text after ∧ (∀ i : Nat, buffer[i]? = some 0 → after[i]? = some 0) ∧
      ∀ span ∈ spans, after[span.eq]? = some 0 := by
  induction spans generalizing buffer with
  | nil => exact ⟨buffer, rfl, kept, fun _ zero => zero, by simp⟩
  | cons span spans induction =>
    rcases reads span (by simp) with ⟨word, here⟩
    rcases here.terminate kept with ⟨terminated, keptThen⟩
    rcases induction (fun other member => reads other (by simp [member])) keptThen with
      ⟨after, folded, keptAfter, zeros, ends⟩
    have inside : span.eq < buffer.length := by
      have bound := here.eq_le
      rw [kept.length]
      omega
    refine ⟨after, ?_, keptAfter, ?_, ?_⟩
    · rw [List.foldlM_cons, terminated]
      exact folded
    · intro i zero
      apply zeros
      by_cases equal : span.eq = i
      · rw [← equal, List.getElem?_set_self inside]
      · rw [List.getElem?_set_ne equal, zero]
    · intro other member
      rcases List.mem_cons.mp member with equal | later
      · rw [equal]
        apply zeros
        rw [List.getElem?_set_self inside]
      · exact ends other later

namespace Cmd.Rel

variable {text : Text} {cmd : Cmd Span} {tree : Cmd Word}

theorem reads (rel : cmd.Rel text.Reads tree) :
    ∀ span ∈ cmd.words, ∃ word, text.Reads span word := by
  induction rel with
  | exec words =>
    intro span member
    rcases List.forall₂_iff_get.mp words with ⟨length, stands⟩
    rcases List.get_of_mem member with ⟨i, equal⟩
    exact ⟨_, equal ▸ stands i.1 i.2 (length ▸ i.2)⟩
  | redir rel file induction =>
    intro span member
    rcases List.mem_append.mp member with inner | outer
    · exact induction span inner
    · rw [List.mem_singleton.mp outer]
      exact ⟨_, file⟩
  | pipe left right inductionLeft inductionRight | list left right inductionLeft inductionRight =>
    intro span member
    rcases List.mem_append.mp member with inLeft | inRight
    · exact inductionLeft span inLeft
    · exact inductionRight span inRight
  | back rel induction => exact induction

theorem strings (rel : cmd.Rel text.Reads tree) (kept : Kept text buffer)
    (terminated : ∀ span ∈ cmd.words, buffer[span.eq]? = some 0) : cmd.strings buffer = tree := by
  induction rel with
  | exec words =>
    rw [Cmd.strings, Cmd.map]
    congr 1
    induction words with
    | nil => rfl
    | cons stands words induction =>
      rw [List.map_cons, induction fun span member => terminated span (by simp_all [Cmd.words])]
      rw [stands.cstring kept (terminated _ (by simp [Cmd.words]))]
  | redir rel file induction =>
    rw [Cmd.strings, Cmd.map, file.cstring kept (terminated _ (by simp [Cmd.words]))]
    congr 1
    exact induction fun span member => terminated span (by simp [Cmd.words, member])
  | pipe left right inductionLeft inductionRight | list left right inductionLeft inductionRight =>
    rw [Cmd.strings, Cmd.map]
    congr 1
    · exact inductionLeft fun span member => terminated span (by simp [Cmd.words, member])
    · exact inductionRight fun span member => terminated span (by simp [Cmd.words, member])
  | back rel induction =>
    rw [Cmd.strings, Cmd.map]
    congr 1
    exact induction terminated

end Cmd.Rel

theorem kept_line (text : Text) : Kept text (text.bytes ++ [0]) where
  length := by rw [List.length_append]; rfl
  kept := by
    intro i c there _
    rw [List.getElem?_append_left (List.getElem?_eq_some_iff.mp there).1, there]

variable {s : Nat}

theorem Text.peek_spaces (text : Text) (inside : s ≤ text.es) :
    ∃ found, text.peek [] s = .ok (found, text.after isSpace s) := by
  rw [peek, skip_eq inside]
  show ∃ found, (text.read (text.after isSpace s) >>= _) = _
  cases equal : text.rest (text.after isSpace s) with
  | nil =>
    rw [read_nil (after_le isSpace inside) equal]
    exact ⟨_, rfl⟩
  | cons c after =>
    rw [read_cons equal]
    exact ⟨_, rfl⟩

theorem Text.spaces_iff (text : Text) (inside : s ≤ text.es) :
    tokens (text.rest s) = [] ↔ text.after isSpace s = text.es := by
  rw [← rest_nil_iff (after_le isSpace inside), rest_after]
  cases equal : (text.rest s).dropWhile isSpace with
  | nil =>
    have none : nextToken (text.rest s) = none := by rw [nextToken, equal]
    simp [tokens_of_none none]
  | cons c after =>
    have some : nextToken (text.rest s) =
        some ((tokenAt c after).1, (tokenAt c after).2) := by rw [nextToken, equal]
    simp [tokens_of_some some]

/-- The parser on the tokens of a line. -/
def parseTokens (text : Text) : Except Stop (Cmd Word) := do
  let out ← parseline tokenScanner (4 * text.es + 4) (tokens text.bytes)
  if out.2 ≠ [] then .error (.panic "syntax") else .ok out.1

theorem parsecmd_related (text : Text) :
    Related (fun result tree => result.1.strings result.2 = tree) (parsecmd text)
      (parseTokens text) := by
  have start : text.At 0 (tokens text.bytes) := ⟨Nat.zero_le _, rfl⟩
  rw [parsecmd, parseTokens]
  apply Related.bind ((text.scanner_simulates.parse _).1 _ _ start)
  intro cmd out parsed
  rcases parsed with ⟨rel, inside, here⟩
  rcases text.peek_spaces inside with ⟨found, peeked⟩
  rw [peeked, here]
  show Related _ (if text.after isSpace cmd.2 ≠ text.es then _ else
    nulterminate cmd.1 (text.bytes ++ [0]) >>= _) _
  by_cases leftovers : tokens (text.rest cmd.2) = []
  · have atEnd := (text.spaces_iff inside).mp leftovers
    rw [if_neg (not_not.mpr atEnd), if_neg (not_not.mpr leftovers), nulterminate_eq]
    rcases terminate_all rel.reads (kept_line text) with ⟨buffer, folded, kept, _, terminated⟩
    rw [folded]
    exact .ok (rel.strings kept terminated)
  · rw [if_pos (fun atEnd => leftovers ((text.spaces_iff inside).mpr atEnd)), if_pos leftovers]
    exact .error _

theorem enough_fuel (text : Text) :
    4 * (tokens text.bytes).length + 4 ≤ 4 * text.es + 4 := by
  have few := length_tokens_le text.bytes
  rw [Text.es]
  omega

theorem parseTokens_ends (text : Text) : Ends (parseTokens text) := by
  rw [parseTokens]
  apply Ends.bind (parse_ends .line (enough_fuel text))
  intro out _
  split
  · exact .panic (by decide)
  · exact .ok _

theorem parseTokens_iff (text : Text) (tree : Cmd Word) :
    parseTokens text = .ok tree ↔ Derives .line (tokens text.bytes) tree := by
  rw [← parseline_iff (enough_fuel text)]
  constructor
  · intro equal
    rw [parseTokens] at equal
    rcases bind_eq_ok equal with ⟨out, parsed, equal⟩
    split at equal
    · cases equal
    · rename_i none
      cases equal
      rw [parsed, ← not_not.mp none]
  · intro parsed
    rw [parseTokens, parsed]
    rfl

/-- `parsecmd` returns or takes one of its panics: no read is after the terminating NUL
and no write outside `argv`. It returns a tree exactly when the grammar derives the
tree from the tokens of the line. -/
theorem parsecmd_accepts_exactly_grammar (text : Text) :
    ((∃ result, parsecmd text = .ok result) ∨
      ∃ message ∈ panics, parsecmd text = .error (.panic message)) ∧
    ∀ tree, (∃ cmd buffer, parsecmd text = .ok (cmd, buffer) ∧ cmd.strings buffer = tree) ↔
      Derives .line (tokens text.bytes) tree := by
  have related := parsecmd_related text
  constructor
  · cases result : parsecmd text with
    | ok value => exact .inl ⟨value, rfl⟩
    | error stop =>
      rw [result] at related
      rcases parseTokens_ends text stop related.to_error with ⟨message, member, equal⟩
      exact .inr ⟨message, member, by rw [equal]⟩
  · intro tree
    rw [← parseTokens_iff]
    constructor
    · intro returned
      rcases returned with ⟨cmd, buffer, result, strings⟩
      rw [result] at related
      rcases related.to_ok with ⟨other, parsed, same⟩
      rw [parsed, ← same, ← strings]
    · intro parsed
      rw [parsed] at related
      rcases related.of_ok with ⟨result, returned, strings⟩
      exact ⟨result.1, result.2, returned, strings⟩

end Xv6.Shell
