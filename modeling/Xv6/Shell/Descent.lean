import Xv6.Shell.Grammar

/-! # The parser on a list of tokens

The same functions with a list of tokens as their cursor. They return a tree
exactly when the grammar derives it. -/

namespace Xv6.Shell

/-- What `gettoken` returns for a token. -/
def Token.code : Token → UInt8
  | .word _ => byte 'a'
  | .less => byte '<'
  | .great => byte '>'
  | .append => byte '+'
  | .bar => byte '|'
  | .amp => byte '&'
  | .semi => byte ';'
  | .lparen => byte '('
  | .rparen => byte ')'

/-- What `peek` compares: the first character, and for a word any character that is in
no operator. -/
def Token.first : Token → UInt8
  | .append => byte '>'
  | token => token.code

def Token.text : Token → Word
  | .word letters => letters
  | _ => []

def starts (toks : List Char) : List Token → Bool
  | [] => false
  | token :: _ => strchr toks token.first

def take : List Token → Got (List Token) Word
  | [] => { ret := 0, word := [], ps := [] }
  | token :: ts => { ret := token.code, word := token.text, ps := ts }

theorem take_ps (token : Token) (ts : List Token) : (take (token :: ts)).ps = ts := rfl

def tokenScanner : Scanner (List Token) Word where
  peek := fun toks ts => .ok (starts toks ts, ts)
  gettoken := fun ts => .ok (take ts)

/-- The panics that a line can cause. -/
def panics : List String :=
  ["syntax", "syntax - missing )", "missing file for redirection", "too many args"]

/-- A computation that returns or panics. -/
def Ends (result : Except Stop α) : Prop :=
  ∀ stop, result = .error stop → ∃ message ∈ panics, stop = .panic message

theorem Ends.ok (value : α) : Ends (.ok value) := by
  intro stop equal
  cases equal

theorem Ends.panic {message : String} (member : message ∈ panics) :
    Ends (.error (.panic message) : Except Stop α) := by
  intro stop equal
  cases equal
  exact ⟨message, member, rfl⟩

theorem Ends.bind {first : Except Stop α} {after : α → Except Stop β} (ends : Ends first)
    (continue_ : ∀ value, first = .ok value → Ends (after value)) : Ends (first >>= after) := by
  cases first with
  | ok value => exact continue_ value rfl
  | error stop =>
    intro other equal
    cases equal
    exact ends stop rfl

theorem bind_eq_ok {first : Except Stop α} {after : α → Except Stop β} {result : β}
    (equal : first >>= after = .ok result) :
    ∃ value, first = .ok value ∧ after value = .ok result := by
  cases first with
  | ok value => exact ⟨value, rfl, equal⟩
  | error stop => cases equal

/-! ## Redirections -/

theorem wrap_append (cmd : Cmd Word) (first second : List Redir) :
    wrap cmd (first ++ second) = wrap (wrap cmd first) second :=
  List.foldl_append

theorem push_wrap (word : Word) (cmd : Cmd Word) (redirs : List Redir) :
    (wrap cmd redirs).push word = wrap (cmd.push word) redirs := by
  induction redirs generalizing cmd with
  | nil => rfl
  | cons redir redirs induction => exact induction _

theorem starts_redir (token : Token) (ts : List Token) :
    starts ['<', '>'] (token :: ts) = token.redirection.isSome := by
  cases token <;> rfl

variable {fd mode : Nat} {token : Token}

theorem redirect_code (redirection : token.redirection = some (mode, fd)) (cmd : Cmd Word)
    (file : Word) : redirect token.code cmd file = .redir cmd file mode fd := by
  cases token <;> cases redirection <;> rfl

/-- The next token is not a redirection. -/
def NoRedir (ts : List Token) : Prop := starts ['<', '>'] ts = false

variable {cmd : Cmd Word} {fuel : Nat} {ts : List Token}

theorem parseredirs_done (none : NoRedir ts) :
    parseredirs tokenScanner (fuel + 1) cmd ts = .ok (cmd, ts) := by
  show (if starts ['<', '>'] ts then _ else _) = _
  rw [none]
  rfl

theorem parseredirs_redir (redirection : token.redirection = some (mode, fd)) (file : Word)
    (ts : List Token) :
    parseredirs tokenScanner (fuel + 1) cmd (token :: .word file :: ts) =
      parseredirs tokenScanner fuel (.redir cmd file mode fd) ts := by
  show (if starts ['<', '>'] (token :: .word file :: ts) then
    parseredirs tokenScanner fuel (redirect token.code cmd file) ts else _) = _
  rw [starts_redir, redirection, redirect_code redirection]
  rfl

theorem parseredirs_missing (redirection : token.redirection.isSome)
    (noWord : (take ts).ret ≠ byte 'a') :
    parseredirs tokenScanner (fuel + 1) cmd (token :: ts) =
      .error (.panic "missing file for redirection") := by
  show (if starts ['<', '>'] (token :: ts) then
    if (take ts).ret ≠ byte 'a' then _ else _ else _) = _
  rw [starts_redir, redirection, if_pos rfl, if_pos noWord]

theorem take_word (word : (take ts).ret = byte 'a') : ∃ file rest, ts = .word file :: rest := by
  cases ts with
  | nil => cases word
  | cons token rest =>
    cases token with
    | word file => exact ⟨file, rest, rfl⟩
    | _ => cases word

theorem redir_cases (ts : List Token) :
    NoRedir ts ∨
    (∃ token mode fd file rest, token.redirection = some (mode, fd) ∧
      ts = token :: .word file :: rest) ∨
    ∃ token rest, token.redirection.isSome ∧ (take rest).ret ≠ byte 'a' ∧ ts = token :: rest := by
  cases ts with
  | nil => exact .inl rfl
  | cons token rest =>
    cases redirection : token.redirection with
    | none =>
      left
      rw [NoRedir, starts_redir, redirection]
      rfl
    | some pair =>
      right
      by_cases word : (take rest).ret = byte 'a'
      · rcases take_word word with ⟨file, rest, equal⟩
        exact .inl ⟨token, pair.1, pair.2, file, rest, redirection, by rw [equal]⟩
      · exact .inr ⟨token, rest, by rw [redirection]; rfl, word, rfl⟩

variable {out : Cmd Word × List Token}

theorem parseredirs_sound (parsed : parseredirs tokenScanner fuel cmd ts = .ok out) :
    ∃ rs redirs, ts = rs ++ out.2 ∧ Redirs rs redirs ∧ out.1 = wrap cmd redirs := by
  induction fuel generalizing cmd ts with
  | zero => cases parsed
  | succ fuel induction =>
    rcases redir_cases ts with none | ⟨token, mode, fd, file, rest, redirection, equal⟩ |
      ⟨token, rest, redirection, noWord, equal⟩
    · rw [parseredirs_done none] at parsed
      cases parsed
      exact ⟨[], [], rfl, .nil, rfl⟩
    · rw [equal, parseredirs_redir redirection] at parsed
      rcases induction parsed with ⟨rs, redirs, split, derived, result⟩
      have splits : ts = token :: .word file :: rs ++ out.2 := by
        rw [equal, split]
        rfl
      exact ⟨_, _, splits, .cons redirection derived, result⟩
    · rw [equal, parseredirs_missing redirection noWord] at parsed
      cases parsed

variable {redirs : List Redir} {rs us : List Token}

theorem parseredirs_complete (derived : Redirs rs redirs) (stops : NoRedir us)
    (enough : (rs ++ us).length < fuel) (cmd : Cmd Word) :
    parseredirs tokenScanner fuel cmd (rs ++ us) = .ok (wrap cmd redirs, us) := by
  induction derived generalizing fuel cmd with
  | nil =>
    cases fuel with
    | zero => cases enough
    | succ fuel => exact parseredirs_done stops
  | cons redirection derived induction =>
    cases fuel with
    | zero => cases enough
    | succ fuel =>
      rw [List.cons_append, List.cons_append, parseredirs_redir redirection]
      rw [List.cons_append, List.cons_append, List.length_cons, List.length_cons] at enough
      exact induction (by omega) _

theorem parseredirs_ends (enough : ts.length < fuel) (cmd : Cmd Word) :
    Ends (parseredirs tokenScanner fuel cmd ts) := by
  induction fuel generalizing cmd ts with
  | zero => cases enough
  | succ fuel induction =>
    rcases redir_cases ts with none | ⟨token, mode, fd, file, rest, redirection, equal⟩ |
      ⟨token, rest, redirection, noWord, equal⟩
    · rw [parseredirs_done none]
      exact .ok _
    · rw [equal, parseredirs_redir redirection]
      rw [equal, List.length_cons, List.length_cons] at enough
      exact induction (by omega) _
    · rw [equal, parseredirs_missing redirection noWord]
      exact .panic (by decide)

/-! ## Words -/

/-- The tokens that end a command. -/
def endsCmd : List Char := ['|', ')', '&', ';']

variable {argc : Nat} {ret : Cmd Word}

theorem parseargs_stop (stop : starts endsCmd ts = true ∨ ts = []) (inside : argc < maxArgs) :
    parseargs tokenScanner (fuel + 1) ret argc ts = .ok (ret, ts) := by
  rcases stop with starts | empty
  · show (if Shell.starts endsCmd ts then store argc >>= fun _ => .ok (ret, ts) else _) = _
    rw [starts, if_pos rfl, store, if_pos inside]
    rfl
  · rw [empty]
    show (store argc >>= fun _ => .ok (ret, [])) = _
    rw [store, if_pos inside]
    rfl

theorem parseargs_word (word : Word) (ts : List Token) (inside : argc + 1 < maxArgs) :
    parseargs tokenScanner (fuel + 1) ret argc (.word word :: ts) =
      parseredirs tokenScanner fuel (ret.push word) ts >>= fun redirected =>
        parseargs tokenScanner fuel redirected.1 (argc + 1) redirected.2 := by
  show (store argc >>= fun _ => if argc + 1 ≥ maxArgs then _ else _) = _
  rw [store, if_pos (by omega)]
  show (if argc + 1 ≥ maxArgs then _ else _) = _
  rw [if_neg (by omega)]
  rfl

theorem parseargs_tooMany (word : Word) (ts : List Token) (inside : argc < maxArgs)
    (last : ¬ argc + 1 < maxArgs) :
    parseargs tokenScanner (fuel + 1) ret argc (.word word :: ts) =
      .error (.panic "too many args") := by
  show (store argc >>= fun _ => if argc + 1 ≥ maxArgs then _ else _) = _
  rw [store, if_pos inside]
  show (if argc + 1 ≥ maxArgs then _ else _) = _
  rw [if_pos (by omega)]

theorem args_cases (ts : List Token) :
    (starts endsCmd ts = true ∨ ts = []) ∨ (∃ word rest, ts = .word word :: rest) ∨
    ∀ fuel argc ret, parseargs tokenScanner (fuel + 1) ret argc ts = .error (.panic "syntax") := by
  cases ts with
  | nil => exact .inl (.inr rfl)
  | cons token rest =>
    cases token with
    | word word => exact .inr (.inl ⟨word, rest, rfl⟩)
    | bar | amp | semi | rparen => exact .inl (.inl rfl)
    | less | great | append | lparen => exact .inr (.inr fun _ _ _ => rfl)

variable {before : List Word}

theorem parseargs_sound (inside : before.length < maxArgs)
    (parsed : parseargs tokenScanner fuel (wrap (.exec before) redirs) before.length ts = .ok out) :
    ∃ ws words rest, ts = ws ++ out.2 ∧ Words ws words rest ∧
      (before ++ words).length ≤ maxArgs - 1 ∧
      out.1 = wrap (.exec (before ++ words)) (redirs ++ rest) := by
  induction fuel generalizing before redirs ts with
  | zero => cases parsed
  | succ fuel induction =>
    rcases args_cases ts with stop | ⟨word, after, equal⟩ | syntaxError
    · rw [parseargs_stop stop inside] at parsed
      cases parsed
      refine ⟨[], [], [], rfl, .nil, ?_, ?_⟩
      · rw [List.append_nil]
        omega
      · rw [List.append_nil, List.append_nil]
    · by_cases last : before.length + 1 < maxArgs
      · rw [equal, parseargs_word word after last, push_wrap] at parsed
        rcases bind_eq_ok parsed with ⟨redirected, first, parsed⟩
        rcases parseredirs_sound first with ⟨rs, added, split, derived, result⟩
        have length : before.length + 1 = (before ++ [word]).length := by simp
        rw [result, ← wrap_append, length, Cmd.push] at parsed
        rcases induction (by omega) parsed with
          ⟨ws, words, rest, splitRest, derivedRest, few, resultRest⟩
        refine ⟨.word word :: rs ++ ws, word :: words, added ++ rest, ?_,
          .cons derived derivedRest, ?_, ?_⟩
        · rw [equal, split, splitRest]
          simp
        · simpa using few
        · rw [resultRest]
          simp
      · rw [equal, parseargs_tooMany word after inside last] at parsed
        cases parsed
    · rw [syntaxError] at parsed
      cases parsed

variable {rest : List Redir} {words : List Word} {ws : List Token}

theorem Words.noRedir (derived : Words ws words rest) (stop : starts endsCmd us = true ∨ us = []) :
    NoRedir (ws ++ us) := by
  cases derived with
  | cons => rfl
  | nil =>
    rcases stop with starts | empty
    · cases us with
      | nil => rfl
      | cons token us => cases token <;> first | rfl | cases starts
    · rw [empty]
      rfl

theorem parseargs_complete (derived : Words ws words rest)
    (stop : starts endsCmd us = true ∨ us = []) (enough : (ws ++ us).length < fuel)
    (few : (before ++ words).length ≤ maxArgs - 1) :
    parseargs tokenScanner fuel (wrap (.exec before) redirs) before.length (ws ++ us) =
      .ok (wrap (.exec (before ++ words)) (redirs ++ rest), us) := by
  have max : maxArgs = 10 := rfl
  induction derived generalizing fuel before redirs with
  | nil =>
    cases fuel with
    | zero => cases enough
    | succ fuel =>
      rw [List.append_nil] at few
      rw [List.append_nil, List.append_nil]
      exact parseargs_stop stop (by omega)
  | @cons word rs added ts words rest derived derivedRest induction =>
    cases fuel with
    | zero => cases enough
    | succ fuel =>
      simp only [List.length_append, List.length_cons] at few enough
      have room : before.length + 1 < maxArgs := by omega
      rw [List.cons_append, List.cons_append, parseargs_word word _ room, push_wrap,
        List.append_assoc, parseredirs_complete derived (derivedRest.noRedir stop)
          (by simp only [List.length_append]; omega)]
      have length : before.length + 1 = (before ++ [word]).length := by simp
      show parseargs tokenScanner fuel (wrap _ added) (before.length + 1) (ts ++ us) = _
      rw [← wrap_append, length, Cmd.push, induction]
      · simp
      · simp only [List.length_append]
        omega
      · simp only [List.length_append, List.length_cons, List.length_nil]
        omega

theorem parseargs_ends (enough : ts.length < fuel) (inside : argc < maxArgs) (ret : Cmd Word) :
    Ends (parseargs tokenScanner fuel ret argc ts) := by
  induction fuel generalizing ret argc ts with
  | zero => cases enough
  | succ fuel induction =>
    rcases args_cases ts with stop | ⟨word, after, equal⟩ | syntaxError
    · rw [parseargs_stop stop inside]
      exact .ok _
    · rw [equal, List.length_cons] at enough
      by_cases last : argc + 1 < maxArgs
      · rw [equal, parseargs_word word after last]
        apply Ends.bind (parseredirs_ends (by omega) _)
        intro redirected first
        rcases parseredirs_sound first with ⟨rs, _, split, _, _⟩
        rw [split, List.length_append] at enough
        exact induction (by omega) last _
      · rw [equal, parseargs_tooMany word after inside last]
        exact .panic (by decide)
    · rw [syntaxError]
      exact .panic (by decide)

/-! ## Background commands -/

theorem parseback_amp (ts : List Token) :
    parseback tokenScanner (fuel + 1) cmd (.amp :: ts) =
      parseback tokenScanner fuel (.back cmd) ts :=
  rfl

theorem parseback_done (stop : starts ['&'] ts = false) :
    parseback tokenScanner (fuel + 1) cmd ts = .ok (cmd, ts) := by
  show (if starts ['&'] ts then _ else _) = _
  rw [stop]
  rfl

theorem amp_cases (ts : List Token) : starts ['&'] ts = false ∨ ∃ rest, ts = .amp :: rest := by
  cases ts with
  | nil => exact .inl rfl
  | cons token rest => cases token <;> first | exact .inl rfl | exact .inr ⟨rest, rfl⟩

theorem parseback_sound (parsed : parseback tokenScanner fuel cmd ts = .ok out) :
    ∃ n, ts = List.replicate n .amp ++ out.2 ∧ out.1 = backs n cmd := by
  induction fuel generalizing cmd ts with
  | zero => cases parsed
  | succ fuel induction =>
    rcases amp_cases ts with stop | ⟨rest, equal⟩
    · rw [parseback_done stop] at parsed
      cases parsed
      exact ⟨0, rfl, rfl⟩
    · rw [equal, parseback_amp] at parsed
      rcases induction parsed with ⟨n, split, result⟩
      exact ⟨n + 1, by rw [equal, split]; rfl, result⟩

theorem parseback_complete {n : Nat} (stop : starts ['&'] us = false) (enough : n < fuel)
    (cmd : Cmd Word) :
    parseback tokenScanner fuel cmd (List.replicate n .amp ++ us) = .ok (backs n cmd, us) := by
  induction n generalizing fuel cmd with
  | zero =>
    cases fuel with
    | zero => cases enough
    | succ fuel => exact parseback_done stop
  | succ n induction =>
    cases fuel with
    | zero => cases enough
    | succ fuel => exact induction (by omega) _

theorem parseback_ends (enough : ts.length < fuel) (cmd : Cmd Word) :
    Ends (parseback tokenScanner fuel cmd ts) := by
  induction fuel generalizing cmd ts with
  | zero => cases enough
  | succ fuel induction =>
    rcases amp_cases ts with stop | ⟨rest, equal⟩
    · rw [parseback_done stop]
      exact .ok _
    · rw [equal, parseback_amp]
      rw [equal, List.length_cons] at enough
      exact induction (by omega) _

/-! ## Lines -/

def parse : Nonterminal → Nat → List Token → Except Stop (Cmd Word × List Token)
  | .line => parseline tokenScanner
  | .pipe => parsepipe tokenScanner
  | .cmd => parseexec tokenScanner

theorem parse_line (fuel : Nat) (ts : List Token) :
    parse .line (fuel + 1) ts = parse .pipe fuel ts >>= fun cmd =>
      parseback tokenScanner fuel cmd.1 cmd.2 >>= fun cmd =>
        if starts [';'] cmd.2 then
          parse .line fuel (take cmd.2).ps >>= fun right => .ok (.list cmd.1 right.1, right.2)
        else .ok cmd :=
  rfl

theorem parse_pipe (fuel : Nat) (ts : List Token) :
    parse .pipe (fuel + 1) ts = parse .cmd fuel ts >>= fun cmd =>
      if starts ['|'] cmd.2 then
        parse .pipe fuel (take cmd.2).ps >>= fun right => .ok (.pipe cmd.1 right.1, right.2)
      else .ok cmd :=
  rfl

theorem parse_exec (fuel : Nat) (noBlock : starts ['('] ts = false) :
    parse .cmd (fuel + 1) ts = parseredirs tokenScanner fuel (.exec []) ts >>= fun ret =>
      parseargs tokenScanner fuel ret.1 0 ret.2 := by
  show (if starts ['('] ts then _ else _) = _
  rw [noBlock]
  rfl

theorem parse_block (fuel : Nat) (ts : List Token) :
    parse .cmd (fuel + 2) (.lparen :: ts) = parse .line fuel ts >>= fun cmd =>
      if starts [')'] cmd.2 then parseredirs tokenScanner fuel cmd.1 (take cmd.2).ps
      else .error (.panic "syntax - missing )") :=
  rfl

theorem starts_single {c : Char} (code : token.first = byte c)
    (only : ∀ other, Token.first other = byte c → other = token) :
    starts [c] ts = true ↔ ∃ rest, ts = token :: rest := by
  cases ts with
  | nil => simp [starts]
  | cons other rest =>
    simp only [starts, strchr, List.any_cons, List.any_nil, Bool.or_false, beq_iff_eq,
      List.cons.injEq]
    constructor
    · intro equal
      exact ⟨rest, only other equal.symm, rfl⟩
    · intro holds
      rcases holds with ⟨_, equal, _⟩
      rw [equal, code]

theorem starts_semi : starts [';'] ts = true ↔ ∃ rest, ts = .semi :: rest := by
  apply starts_single rfl
  intro other equal
  cases other <;> first | rfl | cases equal

theorem starts_bar : starts ['|'] ts = true ↔ ∃ rest, ts = .bar :: rest := by
  apply starts_single rfl
  intro other equal
  cases other <;> first | rfl | cases equal

theorem starts_lparen : starts ['('] ts = true ↔ ∃ rest, ts = .lparen :: rest := by
  apply starts_single rfl
  intro other equal
  cases other <;> first | rfl | cases equal

theorem starts_rparen : starts [')'] ts = true ↔ ∃ rest, ts = .rparen :: rest := by
  apply starts_single rfl
  intro other equal
  cases other <;> first | rfl | cases equal

theorem parse_sound (nonterminal : Nonterminal) (parsed : parse nonterminal fuel ts = .ok out) :
    ∃ taken, ts = taken ++ out.2 ∧ Derives nonterminal taken out.1 := by
  -- A block calls `parseline` two levels below `parseexec`.
  induction fuel using Nat.strong_induction_on generalizing nonterminal ts out with
  | _ fuel induction =>
  cases fuel with
  | zero => cases nonterminal <;> cases parsed
  | succ fuel =>
    cases nonterminal with
    | line =>
      rw [parse_line] at parsed
      rcases bind_eq_ok parsed with ⟨first, parsedFirst, parsed⟩
      rcases bind_eq_ok parsed with ⟨second, parsedSecond, parsed⟩
      rcases induction fuel (Nat.lt_succ_self _) .pipe parsedFirst with ⟨taken, split, derived⟩
      rcases parseback_sound parsedSecond with ⟨n, splitBack, back⟩
      split at parsed
      · rename_i semi
        rcases starts_semi.mp semi with ⟨rest, equal⟩
        rcases bind_eq_ok parsed with ⟨right, parsedRight, parsed⟩
        cases parsed
        rw [equal] at parsedRight
        rcases induction fuel (Nat.lt_succ_self _) .line parsedRight with
          ⟨takenRight, splitRight, derivedRight⟩
        rw [take_ps] at splitRight
        rw [back]
        refine ⟨_, ?_, .list n derived derivedRight⟩
        rw [split, splitBack, equal, splitRight]
        simp
      · cases parsed
        rw [back]
        refine ⟨_, ?_, .line n derived⟩
        rw [split, splitBack, List.append_assoc]
    | pipe =>
      rw [parse_pipe] at parsed
      rcases bind_eq_ok parsed with ⟨first, parsedFirst, parsed⟩
      rcases induction fuel (Nat.lt_succ_self _) .cmd parsedFirst with ⟨taken, split, derived⟩
      split at parsed
      · rename_i bar
        rcases starts_bar.mp bar with ⟨rest, equal⟩
        rcases bind_eq_ok parsed with ⟨right, parsedRight, parsed⟩
        cases parsed
        rw [equal] at parsedRight
        rcases induction fuel (Nat.lt_succ_self _) .pipe parsedRight with
          ⟨takenRight, splitRight, derivedRight⟩
        rw [take_ps] at splitRight
        refine ⟨_, ?_, .pipe derived derivedRight⟩
        rw [split, equal, splitRight]
        simp
      · cases parsed
        exact ⟨taken, split, .single derived⟩
    | cmd =>
      cases block : starts ['('] ts with
      | false =>
        rw [parse_exec fuel block] at parsed
        rcases bind_eq_ok parsed with ⟨ret, parsedRet, parsed⟩
        rcases parseredirs_sound parsedRet with ⟨rs, redirs, split, derived, result⟩
        rw [result] at parsed
        have none : ([] : List Word).length < maxArgs := by decide
        rcases parseargs_sound none parsed with
          ⟨ws, words, rest, splitWords, derivedWords, few, result⟩
        rw [result]
        refine ⟨rs ++ ws, ?_, .exec derived derivedWords few⟩
        rw [split, splitWords, List.append_assoc]
      | true =>
        rcases starts_lparen.mp block with ⟨rest, equal⟩
        cases fuel with
        | zero => rw [equal] at parsed; cases parsed
        | succ fuel =>
          rw [equal, parse_block] at parsed
          rcases bind_eq_ok parsed with ⟨inner, parsedInner, parsed⟩
          rcases induction fuel (by omega) .line parsedInner with
            ⟨taken, split, derived⟩
          split at parsed
          · rename_i closed
            rcases starts_rparen.mp closed with ⟨after, equalAfter⟩
            rw [equalAfter] at parsed
            rcases parseredirs_sound parsed with
              ⟨rs, redirs, splitRedirs, derivedRedirs, result⟩
            rw [take_ps] at splitRedirs
            rw [result]
            refine ⟨_, ?_, .block derived derivedRedirs⟩
            rw [equal, split, equalAfter, splitRedirs]
            simp
          · cases parsed

/-- What can stand after the tokens that a nonterminal derives. -/
def follow : Nonterminal → List Token
  | .line => [.rparen]
  | .pipe => [.rparen] ++ [.semi, .amp]
  | .cmd => [.rparen, .semi, .amp] ++ [.bar]

def Follows (nonterminal : Nonterminal) (us : List Token) : Prop :=
  us = [] ∨ ∃ token rest, token ∈ follow nonterminal ∧ us = token :: rest

/-- The fuel that suffices for a list of tokens. -/
def need : Nonterminal → Nat
  | .line => 4
  | .pipe => 3
  | .cmd => 2

variable {nonterminal : Nonterminal}

theorem Follows.stops (follows : Follows nonterminal us) : starts endsCmd us = true ∨ us = [] := by
  rcases follows with empty | ⟨token, rest, member, equal⟩
  · exact .inr empty
  · left
    rw [equal]
    have among : ∀ token ∈ follow nonterminal, strchr endsCmd token.first = true := by
      cases nonterminal <;> decide
    exact among token member

theorem Follows.not_starts {toks : List Char} (follows : Follows nonterminal us)
    (none : ∀ token ∈ follow nonterminal, strchr toks token.first = false) :
    starts toks us = false := by
  rcases follows with empty | ⟨token, rest, member, equal⟩
  · rw [empty]
    rfl
  · rw [equal]
    exact none token member

theorem noBlock_of_redirs_words (derived : Redirs rs redirs) (derivedWords : Words ws words rest)
    (follows : Follows .cmd us) : starts ['('] (rs ++ (ws ++ us)) = false := by
  cases derived with
  | @cons token _ _ _ _ _ redirection _ =>
    cases token <;> first | rfl | cases redirection
  | nil =>
    cases derivedWords with
    | cons => rfl
    | nil => exact follows.not_starts (by decide)

theorem parse_complete (derived : Derives nonterminal ts cmd) (follows : Follows nonterminal us)
    (enough : 4 * (ts ++ us).length + need nonterminal ≤ fuel) :
    parse nonterminal fuel (ts ++ us) = .ok (cmd, us) := by
  induction derived generalizing us fuel with
  | @line ts cmd n derived induction =>
    cases fuel with
    | zero => cases enough
    | succ fuel =>
      simp only [List.length_append, List.length_replicate, need] at enough induction
      have after : Follows .pipe (List.replicate n .amp ++ us) := by
        cases n with
        | zero =>
          rcases follows with empty | ⟨token, rest, member, equal⟩
          · exact .inl empty
          · exact .inr ⟨token, rest, List.mem_append_left _ member, equal⟩
        | succ n => exact .inr ⟨.amp, _, by decide, rfl⟩
      rw [parse_line, List.append_assoc, induction after (by
        simp only [List.length_append, List.length_replicate]; omega)]
      show (parseback tokenScanner fuel cmd (List.replicate n .amp ++ us) >>= _) = _
      rw [parseback_complete (follows.not_starts (by decide)) (by omega)]
      show (if starts [';'] us then _ else _) = _
      rw [follows.not_starts (by decide)]
      rfl
  | @list ts left vs right n derived derivedRight induction inductionRight =>
    cases fuel with
    | zero => cases enough
    | succ fuel =>
      simp only [List.length_append, List.length_cons, List.length_replicate, need]
        at enough induction inductionRight
      have after : Follows .pipe (List.replicate n .amp ++ (.semi :: vs ++ us)) := by
        cases n with
        | zero => exact .inr ⟨.semi, _, by decide, rfl⟩
        | succ n => exact .inr ⟨.amp, _, by decide, rfl⟩
      rw [parse_line, List.append_assoc, List.append_assoc, induction after (by
        simp only [List.length_append, List.length_cons, List.length_replicate]; omega)]
      show (parseback tokenScanner fuel left (List.replicate n .amp ++ (.semi :: vs ++ us))
        >>= _) = _
      rw [parseback_complete rfl (by omega)]
      show (parse .line fuel (vs ++ us) >>= _) = _
      rw [inductionRight follows (by omega)]
      rfl
  | @single ts cmd derived induction =>
    cases fuel with
    | zero => cases enough
    | succ fuel =>
      simp only [need] at enough induction
      have after : Follows .cmd us := by
        rcases follows with empty | ⟨token, rest, member, equal⟩
        · exact .inl empty
        · exact .inr ⟨token, rest, List.mem_append_left _ member, equal⟩
      rw [parse_pipe, induction after (by omega)]
      show (if starts ['|'] us then _ else _) = _
      rw [follows.not_starts (by decide)]
      rfl
  | @pipe ts left vs right derived derivedRight induction inductionRight =>
    cases fuel with
    | zero => cases enough
    | succ fuel =>
      simp only [List.length_append, List.length_cons, need]
        at enough induction inductionRight
      have after : Follows .cmd (.bar :: vs ++ us) := .inr ⟨.bar, _, by decide, rfl⟩
      rw [parse_pipe, List.append_assoc, induction after (by
        simp only [List.length_append, List.length_cons]; omega)]
      show (parse .pipe fuel (vs ++ us) >>= _) = _
      rw [inductionRight follows (by omega)]
      rfl
  | @block ts cmd rs redirs derived derivedRedirs induction =>
    simp only [List.length_append, List.length_cons, need] at enough induction
    obtain ⟨fuel, rfl⟩ : ∃ less, fuel = less + 2 := ⟨fuel - 2, by omega⟩
    have after : Follows .line (.rparen :: rs ++ us) := .inr ⟨.rparen, _, by decide, rfl⟩
    rw [List.cons_append, List.cons_append, List.append_assoc, parse_block, induction after (by
      simp only [List.length_append, List.length_cons]; omega)]
    show parseredirs tokenScanner fuel cmd (rs ++ us) = _
    apply parseredirs_complete derivedRedirs (follows.not_starts (by decide))
    simp only [List.length_append]
    omega
  | @exec rs redirs ts words rest derived derivedWords few =>
    cases fuel with
    | zero => cases enough
    | succ fuel =>
      simp only [List.length_append, need] at enough
      have noBlock := noBlock_of_redirs_words derived derivedWords follows
      rw [List.append_assoc, parse_exec fuel noBlock,
        parseredirs_complete derived (derivedWords.noRedir follows.stops) (by
          simp only [List.length_append]; omega)]
      show parseargs tokenScanner fuel (wrap (.exec []) redirs) ([] : List Word).length
        (ts ++ us) = _
      rw [parseargs_complete derivedWords follows.stops (by
        simp only [List.length_append]; omega) (by simpa using few)]
      rfl

theorem parse_ends (nonterminal : Nonterminal) (enough : 4 * ts.length + need nonterminal ≤ fuel) :
    Ends (parse nonterminal fuel ts) := by
  induction fuel using Nat.strong_induction_on generalizing nonterminal ts with
  | _ fuel induction =>
  cases fuel with
  | zero => cases nonterminal <;> simp [need] at enough
  | succ fuel =>
    cases nonterminal with
    | line =>
      rw [need] at enough
      rw [parse_line]
      apply Ends.bind (induction fuel (by omega) .pipe (by rw [need]; omega))
      intro first parsedFirst
      rcases parse_sound .pipe parsedFirst with ⟨taken, split, _⟩
      rw [split, List.length_append] at enough
      apply Ends.bind (parseback_ends (by omega) _)
      intro second parsedSecond
      rcases parseback_sound parsedSecond with ⟨n, splitBack, _⟩
      rw [splitBack, List.length_append] at enough
      split
      · rename_i semi
        rcases starts_semi.mp semi with ⟨rest, equal⟩
        rw [equal, List.length_cons] at enough
        rw [equal]
        apply Ends.bind (induction fuel (by omega) .line (by rw [need, take_ps]; omega))
        intro right _
        exact .ok _
      · exact .ok _
    | pipe =>
      rw [need] at enough
      rw [parse_pipe]
      apply Ends.bind (induction fuel (by omega) .cmd (by rw [need]; omega))
      intro first parsedFirst
      rcases parse_sound .cmd parsedFirst with ⟨taken, split, _⟩
      rw [split, List.length_append] at enough
      split
      · rename_i bar
        rcases starts_bar.mp bar with ⟨rest, equal⟩
        rw [equal, List.length_cons] at enough
        rw [equal]
        apply Ends.bind (induction fuel (by omega) .pipe (by rw [need, take_ps]; omega))
        intro right _
        exact .ok _
      · exact .ok _
    | cmd =>
      rw [need] at enough
      cases block : starts ['('] ts with
      | false =>
        rw [parse_exec fuel block]
        apply Ends.bind (parseredirs_ends (by omega) _)
        intro ret parsedRet
        rcases parseredirs_sound parsedRet with ⟨rs, redirs, split, _, _⟩
        rw [split, List.length_append] at enough
        exact parseargs_ends (by omega) (by decide) _
      | true =>
        rcases starts_lparen.mp block with ⟨rest, equal⟩
        rw [equal, List.length_cons] at enough
        obtain ⟨fuel, rfl⟩ : ∃ less, fuel = less + 1 := ⟨fuel - 1, by omega⟩
        rw [equal, parse_block]
        apply Ends.bind (induction fuel (by omega) .line (by rw [need]; omega))
        intro inner parsedInner
        rcases parse_sound .line parsedInner with ⟨taken, split, _⟩
        rw [split, List.length_append] at enough
        split
        · rename_i closed
          rcases starts_rparen.mp closed with ⟨after, equalAfter⟩
          rw [equalAfter, List.length_cons] at enough
          rw [equalAfter]
          exact parseredirs_ends (by rw [take_ps]; omega) _
        · exact .panic (by decide)

theorem parseline_iff (enough : 4 * ts.length + 4 ≤ fuel) (cmd : Cmd Word) :
    parseline tokenScanner fuel ts = .ok (cmd, []) ↔ Derives .line ts cmd := by
  constructor
  · intro parsed
    rcases parse_sound .line parsed with ⟨taken, split, derived⟩
    rw [split, List.append_nil]
    exact derived
  · intro derived
    have whole : 4 * (ts ++ []).length + need .line ≤ fuel := by
      rw [List.append_nil]
      exact enough
    have complete := parse_complete derived (.inl rfl) whole
    rw [List.append_nil] at complete
    exact complete

end Xv6.Shell
