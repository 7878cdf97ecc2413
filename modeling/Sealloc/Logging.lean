import Sealloc.Utils.Text

/-! The messages of `logging.c`, by the calls of `write` that they lead to. -/

namespace Sealloc

open Library

def bufsize : Nat := 201

def nilStr : List Byte := ['(', 'n', 'i', 'l', ')'].map ascii

def hexDigits : List Byte :=
  ['0', '1', '2', '3', '4', '5', '6', '7', '8', '9', 'a', 'b', 'c', 'd', 'e', 'f'].map ascii

def decimalGlyph (d : Nat) : Byte := BitVec.ofNat 8 (d + (ascii '0').toNat)

def hexGlyph (d : Nat) : Byte := hexDigits.getD d 0#8

/-- What the number conversions leave: the buffer, `*begin` in it and the length. -/
structure Printed where
  buf : Nat → Byte
  start : Nat
  len : Nat

def Printed.text (printed : Printed) : List Byte := stretch printed.buf printed.start printed.len

def zu2str (n : Nat) (buf : Nat → Byte) : Printed :=
  if n = 0 then
    ⟨Function.update buf (bufsize - 1) (ascii '0'), bufsize - 1, bufsize - (bufsize - 1)⟩
  else
    let out := writeDigits 10 decimalGlyph 0 (bufsize - 1) n buf
    ⟨out.1, out.2 + 1, bufsize - (out.2 + 1)⟩

def u2str (n : Nat) (buf : Nat → Byte) : Printed := zu2str n buf

/-- `memcpy` to the front of the buffer. -/
def fillFront (text : List Byte) (buf : Nat → Byte) : Nat → Byte := fun i => text.getD i (buf i)

def p2str (ptr : Nat) (buf : Nat → Byte) : Printed :=
  if ptr = 0 then ⟨fillFront nilStr buf, 0, nilStr.length⟩
  else if ptr = 0 then ⟨fillFront (['0', 'x', '0'].map ascii) buf, 0, 3⟩
  else
    let out := writeDigits 16 hexGlyph 1 (bufsize - 1) ptr buf
    ⟨Function.update (Function.update out.1 (out.2 - 1) (ascii '0')) (out.2 - 1 + 1) (ascii 'x'),
      out.2 - 1, bufsize - (out.2 - 1)⟩

/-- An argument that `va_arg` fetches: a 64-bit word, of which an `unsigned` is the low half, or
a pointer to a string. -/
inductive VArg where
  | word (n : Nat)
  | string (addr : Nat) (str : CString)

def VArg.value : VArg → Nat
  | .word n => n
  | .string addr _ => addr

structure Write where
  fd : Nat
  bytes : List Byte
  deriving DecidableEq, Repr

/-- A `write` and what is written after it. -/
def emit (fd : Nat) (bytes : List Byte) (later : Option (List Write)) : Option (List Write) :=
  later.map fun writes => ⟨fd, bytes⟩ :: writes

/-- The loop of `vfse_log`: the message from `msg` on, the bytes from `begin` to `msg`, the
buffer and the arguments left. There is no result where an argument is missing or is no string
where one is printed. -/
def vfseLogLoop (fd : Nat) :
    List Byte → List Byte → (Nat → Byte) → List VArg → Option (List Write)
  | [], pending, _, _ => if pending = [] then some [] else emit fd pending (some [])
  | c :: rest, pending, buf, args =>
      if c = ascii '%' then
        emit fd pending
          (match rest with
          | [] =>
              match args with
              | [] => none
              | _ :: args => vfseLogLoop fd [] (pending ++ [c]) buf args
          | next :: tail =>
              if next = ascii '%' then
                emit fd [ascii '%'] (vfseLogLoop fd tail [] buf args)
              else if next = ascii 'u' then
                match args with
                | [] => none
                | arg :: args =>
                    let printed := u2str (u32 arg.value) buf
                    emit fd printed.text (vfseLogLoop fd tail [] printed.buf args)
              else if next = ascii 'p' then
                match args with
                | [] => none
                | arg :: args =>
                    let printed := p2str arg.value buf
                    emit fd printed.text (vfseLogLoop fd tail [] printed.buf args)
              else if next = ascii 'z' then
                match tail with
                | [] => vfseLogLoop fd [] [] buf args
                | third :: tail' =>
                    if third = ascii 'u' then
                      match args with
                      | [] => none
                      | arg :: args =>
                          let printed := zu2str arg.value buf
                          emit fd printed.text (vfseLogLoop fd tail' [] printed.buf args)
                    else vfseLogLoop fd (third :: tail') [] buf args
              else if next = ascii 's' then
                match args with
                | .string _ str :: args =>
                    emit fd (str.bytes.take (msgLen str)) (vfseLogLoop fd tail [] buf args)
                | _ => none
              else
                -- only the percent sign is passed over, and `begin` stays where it is
                match args with
                | [] => none
                | _ :: args => vfseLogLoop fd (next :: tail) (pending ++ [c]) buf args)
      else vfseLogLoop fd rest (pending ++ [c]) buf args

/-- `vfse_log` with an uninitialised buffer. -/
def vfseLog (stale : Nat → Byte) (fd : Nat) (msg : Option CString) (args : List VArg) :
    Option (List Write) :=
  match msg with
  | none => some []
  | some msg => vfseLogLoop fd msg.bytes [] stale args

def stderrFileno : Nat := 2

def seLog (stale : Nat → Byte) (msg : Option CString) (args : List VArg) : Option (List Write) :=
  vfseLog stale stderrFileno msg args

def fseLog (stale : Nat → Byte) (fd : Nat) (msg : Option CString) (args : List VArg) :
    Option (List Write) :=
  vfseLog stale fd msg args

end Sealloc
