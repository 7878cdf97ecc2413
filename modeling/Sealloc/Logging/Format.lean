import Sealloc.Logging

/-! What a message looks like: the directives that it is made of and the text of each. -/

namespace Sealloc

open Library

/-- The parts of a message; `skip` is a `%z` without its `u`, and `unknown` a percent sign that
starts nothing known. -/
inductive Directive where
  | text (c : Byte)
  | percent
  | unsigned
  | pointer
  | size
  | string
  | skip
  | unknown
  deriving DecidableEq, Repr

def Directive.source : Directive → List Byte
  | .text c => [c]
  | .percent => [ascii '%', ascii '%']
  | .unsigned => [ascii '%', ascii 'u']
  | .pointer => [ascii '%', ascii 'p']
  | .size => [ascii '%', ascii 'z', ascii 'u']
  | .string => [ascii '%', ascii 's']
  | .skip => [ascii '%', ascii 'z']
  | .unknown => [ascii '%']

def parseFormat : List Byte → List Directive
  | [] => []
  | c :: rest =>
      if c = ascii '%' then
        match rest with
        | [] => [.unknown]
        | next :: tail =>
            if next = ascii '%' then .percent :: parseFormat tail
            else if next = ascii 'u' then .unsigned :: parseFormat tail
            else if next = ascii 'p' then .pointer :: parseFormat tail
            else if next = ascii 'z' then
              match tail with
              | [] => [.skip]
              | third :: tail' =>
                  if third = ascii 'u' then .size :: parseFormat tail'
                  else .skip :: parseFormat (third :: tail')
            else if next = ascii 's' then .string :: parseFormat tail
            else .unknown :: parseFormat (next :: tail)
      else .text c :: parseFormat rest

/-- Nothing of a message is lost. -/
theorem parseFormat_source (msg : List Byte) :
    (parseFormat msg).flatMap Directive.source = msg := by
  induction msg using parseFormat.induct with
  | case1 => rfl
  | case2 => rfl
  | case3 tail ih =>
      unfold parseFormat
      simp [Directive.source, ih]
  | case4 tail n₁ ih =>
      unfold parseFormat
      simp [Directive.source, n₁, ih]
  | case5 tail n₁ n₂ ih =>
      unfold parseFormat
      simp [Directive.source, n₁, n₂, ih]
  | case6 n₁ n₂ n₃ =>
      unfold parseFormat
      simp [Directive.source, n₁, n₂, n₃]
  | case7 tail n₁ n₂ n₃ ih =>
      unfold parseFormat
      simp [Directive.source, n₁, n₂, n₃, ih]
  | case8 third tail other n₁ n₂ n₃ ih =>
      unfold parseFormat
      simp [Directive.source, other, n₁, n₂, n₃, ih]
  | case9 tail n₁ n₂ n₃ n₄ ih =>
      unfold parseFormat
      simp [Directive.source, n₁, n₂, n₃, n₄, ih]
  | case10 next tail n₁ n₂ n₃ n₄ n₅ ih =>
      unfold parseFormat
      simp [Directive.source, n₁, n₂, n₃, n₄, n₅, ih]
  | case11 c tail other ih =>
      unfold parseFormat
      simp [Directive.source, other, ih]

def unsignedText (n : Nat) : List Byte :=
  if n = 0 then [ascii '0'] else numeral 10 decimalGlyph n

def pointerText (n : Nat) : List Byte :=
  if n = 0 then nilStr else ascii '0' :: ascii 'x' :: numeral 16 hexGlyph n

/-- The text of a message, whose last bytes since a known directive are `since`: an unknown one
prints these again and passes over its argument. -/
def render : List Directive → List Byte → List VArg → Option (List Byte)
  | [], _, _ => some []
  | .text c :: rest, since, args => (render rest (since ++ [c]) args).map fun text => c :: text
  | .percent :: rest, _, args => (render rest [] args).map fun text => ascii '%' :: text
  | .unsigned :: rest, _, arg :: args =>
      (render rest [] args).map fun text => unsignedText (u32 arg.value) ++ text
  | .pointer :: rest, _, arg :: args =>
      (render rest [] args).map fun text => pointerText arg.value ++ text
  | .size :: rest, _, arg :: args =>
      (render rest [] args).map fun text => unsignedText arg.value ++ text
  | .string :: rest, _, .string _ str :: args =>
      (render rest [] args).map fun text => str.bytes ++ text
  | .skip :: rest, _, args => render rest [] args
  | .unknown :: rest, since, _ :: args =>
      (render rest (since ++ [ascii '%']) args).map fun text => since ++ ascii '%' :: text
  | _, _, _ => none

section Numbers

/-- A number of 64 bits fits into the buffer. -/
theorem numeral_short {base n : Nat} (large : 10 ≤ base) (word : n < 2 ^ 64)
    (glyph : Nat → Byte) : (numeral base glyph n).length ≤ 20 := by
  rw [numeral_length, Nat.digits_length_le_iff (by omega)]
  calc
    n < 2 ^ 64 := word
    _ ≤ 10 ^ 20 := by norm_num
    _ ≤ base ^ 20 := Nat.pow_le_pow_left large 20

theorem zu2str_text {n : Nat} (buf : Nat → Byte) (word : n < 2 ^ 64) :
    (zu2str n buf).text = unsignedText n := by
  unfold zu2str unsignedText
  by_cases zero : n = 0
  · rw [if_pos zero, if_pos zero]
    simp [Printed.text, stretch, bufsize]
  · rw [if_neg zero, if_neg zero]
    have short := numeral_short (Nat.le_refl 10) word decimalGlyph
    have spec := @writeDigits_spec _ 10 decimalGlyph (by decide) 0 (bufsize - 1) n buf
      (by unfold bufsize; omega)
    generalize writeDigits 10 decimalGlyph 0 (bufsize - 1) n buf = out at spec
    unfold bufsize at spec ⊢
    have length : 201 - (out.2 + 1) = (numeral 10 decimalGlyph n).length := by omega
    simp only [Printed.text]
    rw [length]
    exact spec.2.1

theorem p2str_text {n : Nat} (buf : Nat → Byte) (word : n < 2 ^ 64) :
    (p2str n buf).text = pointerText n := by
  unfold p2str pointerText
  by_cases zero : n = 0
  · rw [if_pos zero, if_pos zero]
    rfl
  · rw [if_neg zero, if_neg zero, if_neg zero]
    have short := numeral_short (by decide : 10 ≤ 16) word hexGlyph
    have spec := @writeDigits_spec _ 16 hexGlyph (by decide) 1 (bufsize - 1) n buf
      (by unfold bufsize; omega)
    generalize writeDigits 16 hexGlyph 1 (bufsize - 1) n buf = out at spec
    unfold bufsize at spec ⊢
    have length : 201 - (out.2 - 1) = (numeral 16 hexGlyph n).length + 1 + 1 := by omega
    have place : out.2 - 1 + 1 = out.2 := by omega
    simp only [Printed.text]
    rw [length, stretch_cons, stretch_cons, place, Function.update_self,
      Function.update_of_ne (by omega), Function.update_self]
    congr 2
    refine Eq.trans (stretch_congr ?_) spec.2.1
    intro i above
    rw [Function.update_of_ne (by omega), Function.update_of_ne (by omega)]

end Numbers

section Messages

variable {fd : Nat}

/-- What a sequence of writes puts into the file. -/
def output (writes : List Write) : List Byte := writes.flatMap Write.bytes

theorem emit_output (bytes : List Byte) (later : Option (List Write)) :
    (emit fd bytes later).map output = (later.map output).map fun text => bytes ++ text := by
  cases later with
  | none => rfl
  | some writes => rfl

/-- What the calling convention and the size of the memory say about an argument. -/
def VArg.Fits : VArg → Prop
  | .word n => n < 2 ^ 64
  | .string addr str => addr < 2 ^ 64 ∧ str.bytes.length < 2 ^ 32

theorem VArg.Fits.word {arg : VArg} (fits : arg.Fits) : arg.value < 2 ^ 64 := by
  cases arg with
  | word n => exact fits
  | string addr str => exact fits.1

/-- The loop of `vfse_log` prints what is pending and then what the rest of the message says. -/
theorem vfseLogLoop_output (msg : List Byte) : ∀ (pending : List Byte) (buf : Nat → Byte)
    (args : List VArg), (∀ arg ∈ args, arg.Fits) →
    (vfseLogLoop fd msg pending buf args).map output =
      (render (parseFormat msg) pending args).map fun text => pending ++ text := by
  induction msg using parseFormat.induct with
  | case1 =>
      intro pending buf args fits
      by_cases none : pending = []
      · simp [vfseLogLoop, parseFormat, render, none, output]
      · simp [vfseLogLoop, parseFormat, render, none, output, emit]
  | case2 =>
      intro pending buf args fits
      unfold vfseLogLoop parseFormat
      cases args with
      | nil => simp [render, emit]
      | cons arg args => simp [vfseLogLoop, render, emit, output]
  | case3 tail ih =>
      intro pending buf args fits
      unfold vfseLogLoop parseFormat
      simp [render, emit_output, ih [] buf args fits, Function.comp_def]
  | case4 tail n₁ ih =>
      intro pending buf args fits
      unfold vfseLogLoop parseFormat
      cases args with
      | nil => simp [n₁, render, emit]
      | cons arg args =>
          rw [List.forall_mem_cons] at fits
          have text := zu2str_text buf (n := u32 arg.value) (by unfold u32; omega)
          simp [n₁, render, emit_output, ih _ _ _ fits.2, u2str, text, Function.comp_def]
  | case5 tail n₁ n₂ ih =>
      intro pending buf args fits
      unfold vfseLogLoop parseFormat
      cases args with
      | nil => simp [n₁, n₂, render, emit]
      | cons arg args =>
          rw [List.forall_mem_cons] at fits
          have text := p2str_text buf fits.1.word
          simp [n₁, n₂, render, emit_output, ih _ _ _ fits.2, text, Function.comp_def]
  | case6 n₁ n₂ n₃ =>
      intro pending buf args fits
      unfold vfseLogLoop parseFormat
      simp [n₁, n₂, n₃, vfseLogLoop, render, emit, output]
  | case7 tail n₁ n₂ n₃ ih =>
      intro pending buf args fits
      unfold vfseLogLoop parseFormat
      cases args with
      | nil => simp [n₁, n₂, n₃, render, emit]
      | cons arg args =>
          rw [List.forall_mem_cons] at fits
          have text := zu2str_text buf fits.1.word
          simp [n₁, n₂, n₃, render, emit_output, ih _ _ _ fits.2, text, Function.comp_def]
  | case8 third tail other n₁ n₂ n₃ ih =>
      intro pending buf args fits
      unfold vfseLogLoop parseFormat
      simp [n₁, n₂, n₃, other, render, emit_output, ih _ _ _ fits]
  | case9 tail n₁ n₂ n₃ n₄ ih =>
      intro pending buf args fits
      unfold vfseLogLoop parseFormat
      cases args with
      | nil => simp [n₁, n₂, n₃, n₄, render, emit]
      | cons arg args =>
          rw [List.forall_mem_cons] at fits
          cases arg with
          | word n => simp [n₁, n₂, n₃, n₄, render, emit]
          | string addr str =>
              have length := msgLen_eq fits.1.2
              simp [n₁, n₂, n₃, n₄, render, emit_output, ih _ _ _ fits.2, length,
                Function.comp_def]
  | case10 next tail n₁ n₂ n₃ n₄ n₅ ih =>
      intro pending buf args fits
      unfold vfseLogLoop parseFormat
      cases args with
      | nil => simp [n₁, n₂, n₃, n₄, n₅, render, emit]
      | cons arg args =>
          rw [List.forall_mem_cons] at fits
          simp [n₁, n₂, n₃, n₄, n₅, render, emit_output, ih _ _ _ fits.2, Function.comp_def]
  | case11 c tail other ih =>
      intro pending buf args fits
      unfold vfseLogLoop parseFormat
      simp [other, render, ih _ _ _ fits, Function.comp_def]

/-- Every message is printed as its directives say, whatever the buffer held before; and the
directives are all of the message. -/
theorem vfseLog_prints (stale : Nat → Byte) (fd : Nat) (msg : CString) (args : List VArg)
    (fits : ∀ arg ∈ args, arg.Fits) :
    (parseFormat msg.bytes).flatMap Directive.source = msg.bytes ∧
    (vfseLog stale fd (some msg) args).map output = render (parseFormat msg.bytes) [] args := by
  refine ⟨parseFormat_source msg.bytes, ?_⟩
  unfold vfseLog
  simp only
  rw [vfseLogLoop_output msg.bytes [] stale args fits]
  simp

/-- A pointer, a size and a string. -/
theorem vfseLog_prints_three : ∃ (msg : CString) (args : List VArg), args.length = 3 ∧
    (parseFormat msg.bytes).flatMap Directive.source = msg.bytes ∧
    (vfseLog (fun _ => 0#8) 2 (some msg) args).map output =
      render (parseFormat msg.bytes) [] args := by
  let msg : CString := ⟨['%', 'p', ' ', '%', 'z', 'u', ' ', '%', 's'].map ascii,
    noNul_ascii (by decide)⟩
  let str : CString := ⟨['M'].map ascii, noNul_ascii (by decide)⟩
  have fits : ∀ arg ∈ [VArg.word (2 ^ 46), .word 4096, .string 8 str], arg.Fits := by
    simp only [List.forall_mem_cons, VArg.Fits]
    exact ⟨by decide, by decide, ⟨by decide, by decide⟩, fun _ member => nomatch member⟩
  exact ⟨msg, _, rfl, vfseLog_prints (fun _ => 0#8) 2 msg _ fits⟩

end Messages

section Seeds

variable {signed : Bool}

theorem decimalGlyph_value : ∀ signed, ∀ d < 10, digitValue signed (decimalGlyph d) = d := by
  decide

theorem decimalGlyph_some : ∀ d < 10, decimalGlyph d ≠ 0#8 := by decide

theorem unsignedText_some (n : Nat) : unsignedText n ≠ [] := by
  unfold unsignedText
  split
  · exact List.cons_ne_nil _ _
  next some =>
    intro nothing
    have length := @numeral_length _ 10 decimalGlyph n
    rw [nothing] at length
    exact some (Nat.digits_eq_nil_iff_eq_zero.mp (List.length_eq_zero_iff.mp length.symm))

/-- The text of an `unsigned` is made of digits. -/
theorem unsignedText_glyphs {n : Nat} {c : Byte} (member : c ∈ unsignedText n) :
    ∃ d < 10, c = decimalGlyph d := by
  unfold unsignedText at member
  split at member
  · exact ⟨0, by decide, List.mem_singleton.mp member⟩
  · rcases List.mem_map.mp member with ⟨d, digit, rfl⟩
    exact ⟨d, Nat.digits_lt_base (by decide) (List.mem_reverse.mp digit), rfl⟩

theorem unsignedText_value (signed : Bool) (n : Nat) : decimalValue signed (unsignedText n) = n := by
  unfold unsignedText
  split
  next zero =>
    rw [zero]
    cases signed <;> decide
  next some => exact readNumeral_numeral (by decide : 1 < 10) (decimalGlyph_value signed) n

/-- The text of an `unsigned` as a string. -/
def unsignedString (n : Nat) : CString where
  bytes := unsignedText n
  noNul := by
    intro c member
    unfold unsignedText at member
    split at member
    · rw [List.mem_singleton.mp member]
      decide
    · rcases List.mem_map.mp member with ⟨d, digit, rfl⟩
      exact decimalGlyph_some d (Nat.digits_lt_base (by decide) (List.mem_reverse.mp digit))

/-- What `%u` prints is read back by `str2u32`. -/
theorem str2u32_unsignedString (signed : Bool) {n : Nat} (word : n < 2 ^ 32) :
    str2u32 signed (unsignedString n) = n := by
  have short : (unsignedString n).bytes.length < 2 ^ 32 := by
    change (unsignedText n).length < 2 ^ 32
    unfold unsignedText
    split
    · norm_num
    · exact lt_of_le_of_lt (numeral_short (Nat.le_refl 10) (by omega) _) (by norm_num)
  have residue := @str2u32_modEq signed (unsignedString n) short
  have below := @str2u32_lt signed (unsignedString n)
  change (str2u32 signed (unsignedString n) : Int) ≡ decimalValue signed (unsignedText n)
    [ZMOD 2 ^ 32] at residue
  rw [unsignedText_value] at residue
  generalize str2u32 signed (unsignedString n) = read at residue below
  unfold Int.ModEq at residue
  omega

def usingSecret : List Byte :=
  ['U', 's', 'i', 'n', 'g', ' ', 's', 'e', 'c', 'r', 'e', 't', ' '].map ascii

/-- The message that `arena_init` prints in a debug build. -/
def secretMessage : CString where
  bytes := usingSecret ++ [ascii '%', ascii 'u', ascii '\n']
  noNul := List.forall_mem_append.mpr ⟨noNul_ascii (by decide),
    @noNul_ascii ['%', 'u', '\n'] (by decide)⟩

theorem secretMessage_output (stale : Nat → Byte) {secret : Nat} (word : secret < 2 ^ 32) :
    (seLog stale (some secretMessage) [.word secret]).map output =
      some (usingSecret ++ (unsignedString secret).bytes ++ [ascii '\n']) := by
  unfold seLog vfseLog
  simp only
  rw [vfseLogLoop_output]
  · have parsed : parseFormat secretMessage.bytes =
        usingSecret.map .text ++ [.unsigned, .text (ascii '\n')] := by decide
    have same : u32 secret = secret := Nat.mod_eq_of_lt word
    rw [parsed]
    simp [usingSecret, render, VArg.value, same, unsignedString]
  · intro arg member
    rw [List.mem_singleton.mp member]
    exact lt_trans word (by norm_num)

end Seeds

end Sealloc
