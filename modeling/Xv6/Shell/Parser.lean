import Mathlib.Logic.Basic

/-! # The parser of `user/sh.c`

The parser moves a cursor over the input: it looks at the next character with
`peek` and takes tokens with `gettoken`. The functions that call these two do
not depend on what a cursor is, so they are written over a `Scanner`; in the
shell the cursor is an address in the line that was read.

A read after the terminating NUL and a write outside `argv` are faults. A loop
or a recursion that runs out of `fuel` is a fault of its own. -/

namespace Xv6.Shell

inductive Stop where
  | panic (message : String)
  | fault
  | fuel
  deriving DecidableEq

/-- `MAXARGS` -/
def maxArgs : Nat := 10

/-! The flags of `open` in `kernel/fcntl.h`. -/

def oRdonly : Nat := 0x000
def oWronly : Nat := 0x001
def oCreate : Nat := 0x200
def oTrunc : Nat := 0x400

def byte (c : Char) : UInt8 := c.toUInt8

/-- `struct cmd`: the words of a command are pointers in the shell, and strings in its
grammar. -/
inductive Cmd (α : Type) where
  | exec (argv : List α)
  | redir (cmd : Cmd α) (file : α) (mode fd : Nat)
  | pipe (left right : Cmd α)
  | list (left right : Cmd α)
  | back (cmd : Cmd α)
  deriving DecidableEq

namespace Cmd

/-- `cmd->argv[argc] = q`, where `cmd` is the command that `redir` nodes wrap. -/
def push (word : α) : Cmd α → Cmd α
  | .exec argv => .exec (argv ++ [word])
  | .redir cmd file mode fd => .redir (cmd.push word) file mode fd
  | .pipe left right => .pipe left right
  | .list left right => .list left right
  | .back cmd => .back cmd

def map (f : α → β) : Cmd α → Cmd β
  | .exec argv => .exec (argv.map f)
  | .redir cmd file mode fd => .redir (cmd.map f) (f file) mode fd
  | .pipe left right => .pipe (left.map f) (right.map f)
  | .list left right => .list (left.map f) (right.map f)
  | .back cmd => .back (cmd.map f)

end Cmd

/-- What `gettoken` returns: the kind of the token, the word, and the new cursor. -/
structure Got (σ α : Type) where
  ret : UInt8
  word : α
  ps : σ

structure Scanner (σ α : Type) where
  peek : List Char → σ → Except Stop (Bool × σ)
  gettoken : σ → Except Stop (Got σ α)

section Parse

variable (input : Scanner σ α)

/-- The `switch` of `parseredirs`. -/
def redirect (tok : UInt8) (cmd : Cmd α) (file : α) : Cmd α :=
  if tok = byte '<' then .redir cmd file oRdonly 0
  else if tok = byte '>' then .redir cmd file (oWronly ||| oCreate ||| oTrunc) 1
  else if tok = byte '+' then .redir cmd file (oWronly ||| oCreate) 1
  else cmd

def parseredirs : Nat → Cmd α → σ → Except Stop (Cmd α × σ)
  | 0, _, _ => .error .fuel
  | fuel + 1, cmd, s => do
      let more ← input.peek ['<', '>'] s
      if more.1 then
        let tok ← input.gettoken more.2
        let file ← input.gettoken tok.ps
        if file.ret ≠ byte 'a' then .error (.panic "missing file for redirection")
        else parseredirs fuel (redirect tok.ret cmd file.word) file.ps
      else .ok (cmd, more.2)

/-- A write of `argv[argc]` and `eargv[argc]`. -/
def store (argc : Nat) : Except Stop Unit :=
  if argc < maxArgs then .ok () else .error .fault

/-- The loop of `parseexec`, and the writes after it. -/
def parseargs : Nat → Cmd α → Nat → σ → Except Stop (Cmd α × σ)
  | 0, _, _, _ => .error .fuel
  | fuel + 1, ret, argc, s => do
      let done ← input.peek ['|', ')', '&', ';'] s
      if done.1 then
        store argc
        .ok (ret, done.2)
      else
        let tok ← input.gettoken done.2
        if tok.ret = 0 then
          store argc
          .ok (ret, tok.ps)
        else if tok.ret ≠ byte 'a' then .error (.panic "syntax")
        else
          store argc
          if argc + 1 ≥ maxArgs then .error (.panic "too many args")
          else
            let redirected ← parseredirs input fuel (ret.push tok.word) tok.ps
            parseargs fuel redirected.1 (argc + 1) redirected.2

/-- The loop of `parseline` that takes the `&`. -/
def parseback : Nat → Cmd α → σ → Except Stop (Cmd α × σ)
  | 0, _, _ => .error .fuel
  | fuel + 1, cmd, s => do
      let more ← input.peek ['&'] s
      if more.1 then
        let tok ← input.gettoken more.2
        parseback fuel (.back cmd) tok.ps
      else .ok (cmd, more.2)

mutual

def parseline : Nat → σ → Except Stop (Cmd α × σ)
  | 0, _ => .error .fuel
  | fuel + 1, s => do
      let cmd ← parsepipe fuel s
      let cmd ← parseback input fuel cmd.1 cmd.2
      let more ← input.peek [';'] cmd.2
      if more.1 then
        let tok ← input.gettoken more.2
        let right ← parseline fuel tok.ps
        .ok (.list cmd.1 right.1, right.2)
      else .ok (cmd.1, more.2)

def parsepipe : Nat → σ → Except Stop (Cmd α × σ)
  | 0, _ => .error .fuel
  | fuel + 1, s => do
      let cmd ← parseexec fuel s
      let more ← input.peek ['|'] cmd.2
      if more.1 then
        let tok ← input.gettoken more.2
        let right ← parsepipe fuel tok.ps
        .ok (.pipe cmd.1 right.1, right.2)
      else .ok (cmd.1, more.2)

def parseexec : Nat → σ → Except Stop (Cmd α × σ)
  | 0, _ => .error .fuel
  | fuel + 1, s => do
      let block ← input.peek ['('] s
      if block.1 then parseblock fuel block.2
      else
        let ret ← parseredirs input fuel (.exec []) block.2
        parseargs input fuel ret.1 0 ret.2

def parseblock : Nat → σ → Except Stop (Cmd α × σ)
  | 0, _ => .error .fuel
  | fuel + 1, s => do
      let opened ← input.peek ['('] s
      if opened.1 then
        let tok ← input.gettoken opened.2
        let cmd ← parseline fuel tok.ps
        let closed ← input.peek [')'] cmd.2
        if closed.1 then
          let tok ← input.gettoken closed.2
          parseredirs input fuel cmd.1 tok.ps
        else .error (.panic "syntax - missing )")
      else .error (.panic "parseblock")

end

end Parse

/-! ## The cursor in the shell -/

def strchr (s : List Char) (c : UInt8) : Bool := s.any fun d => byte d == c

def whitespace : List Char := [' ', '\t', '\r', '\n', '\x0b']

def symbols : List Char := ['<', '|', '>', '&', ';', '(', ')']

def isSpace (c : UInt8) : Bool := strchr whitespace c

def inWord (c : UInt8) : Bool := !strchr whitespace c && !strchr symbols c

/-- A string of C: the bytes before its terminating NUL. -/
structure Text where
  bytes : List UInt8
  nonzero : 0 ∉ bytes

/-- The words of a command: `argv[i]` and `eargv[i]`, or `file` and `efile`. -/
structure Span where
  q : Nat
  eq : Nat
  deriving DecidableEq

namespace Text

variable (text : Text)

/-- The address of the terminating NUL: `s + strlen(s)`. -/
def es : Nat := text.bytes.length

/-- `*s` -/
def read (s : Nat) : Except Stop UInt8 :=
  if s < text.es then .ok (text.bytes.getD s 0)
  else if s = text.es then .ok 0
  else .error .fault

/-- `while(s < es && while_(*s)) s++` -/
def scan (while_ : UInt8 → Bool) : Nat → Nat → Except Stop Nat
  | 0, _ => .error .fuel
  | fuel + 1, s =>
    if s < text.es then do
      let c ← text.read s
      if while_ c then scan while_ fuel (s + 1) else .ok s
    else .ok s

def skip (s : Nat) : Except Stop Nat := text.scan isSpace (text.es + 1) s

/-- The `switch` of `gettoken`: the kind of the token at `s` and the address after it. -/
def token (s : Nat) : Except Stop (UInt8 × Nat) := do
  let c ← text.read s
  if c = 0 then .ok (c, s)
  else if c = byte '|' ∨ c = byte '(' ∨ c = byte ')' ∨ c = byte ';' ∨ c = byte '&' ∨
      c = byte '<' then .ok (c, s + 1)
  else if c = byte '>' then
    let d ← text.read (s + 1)
    if d = byte '>' then .ok (byte '+', s + 2) else .ok (c, s + 1)
  else
    let eq ← text.scan inWord (text.es + 1) s
    .ok (byte 'a', eq)

def gettoken (s : Nat) : Except Stop (Got Nat Span) := do
  let q ← text.skip s
  let tok ← text.token q
  let ps ← text.skip tok.2
  .ok { ret := tok.1, word := ⟨q, tok.2⟩, ps }

def peek (toks : List Char) (s : Nat) : Except Stop (Bool × Nat) := do
  let s ← text.skip s
  let c ← text.read s
  .ok (c ≠ 0 && strchr toks c, s)

def scanner : Scanner Nat Span where
  peek := text.peek
  gettoken := text.gettoken

end Text

/-- `*p = 0` -/
def terminate (buffer : List UInt8) (p : Nat) : Except Stop (List UInt8) :=
  if p < buffer.length then .ok (buffer.set p 0) else .error .fault

def nulterminate : Cmd Span → List UInt8 → Except Stop (List UInt8)
  | .exec argv, buffer => argv.foldlM (fun buffer word => terminate buffer word.eq) buffer
  | .redir cmd file _ _, buffer => do
      let buffer ← nulterminate cmd buffer
      terminate buffer file.eq
  | .pipe left right, buffer => do
      let buffer ← nulterminate left buffer
      nulterminate right buffer
  | .list left right, buffer => do
      let buffer ← nulterminate left buffer
      nulterminate right buffer
  | .back cmd, buffer => nulterminate cmd buffer

/-- The string at an address. -/
def cstring (buffer : List UInt8) (p : Nat) : List UInt8 :=
  (buffer.drop p).takeWhile (· ≠ 0)

/-- The tree that the words of a command are strings in. -/
def Cmd.strings (buffer : List UInt8) (cmd : Cmd Span) : Cmd (List UInt8) :=
  cmd.map fun word => cstring buffer word.q

/-- The tree, and the line with the words of the tree terminated. -/
def parsecmd (text : Text) : Except Stop (Cmd Span × List UInt8) := do
  let cmd ← parseline text.scanner (4 * text.es + 4) 0
  let s ← text.peek [] cmd.2
  if s.2 ≠ text.es then .error (.panic "syntax")
  else
    let buffer ← nulterminate cmd.1 (text.bytes ++ [0])
    .ok (cmd.1, buffer)

end Xv6.Shell
