import Sealloc.Library.Pieces
import Sealloc.Logging.Format
import Sealloc.World.Sizes

/-! The file of statistics: the lines that `log_allocation` writes, what the script reads from them
and how far the class of a line is the class of the region. -/

namespace Sealloc

open Library

def isSizeLarge (size : Nat) : Prop := mediumSizeMaxRegion < size ∧ size ≤ largeSizeMaxRegion

instance (size : Nat) : Decidable (isSizeLarge size) := inferInstanceAs (Decidable (_ ∧ _))

inductive AllocationClass where
  | small
  | medium
  | large
  | huge
  deriving DecidableEq, Repr

def allocationClass (size : Nat) : AllocationClass :=
  if isSizeSmall size then .small
  else if isSizeMedium size then .medium
  else if isSizeLarge size then .large
  else .huge

def AllocationClass.letter : AllocationClass → Byte
  | .small => ascii 'S'
  | .medium => ascii 'M'
  | .large => ascii 'L'
  | .huge => ascii 'H'

def AllocationClass.text (c : AllocationClass) : CString where
  bytes := [c.letter]
  noNul := by
    rw [List.forall_mem_singleton]
    cases c <;> decide

/-- The message of `log_allocation`. -/
def statsMessage : CString where
  bytes := ['%', 's', ' ', '%', 'z', 'u', '\n'].map ascii
  noNul := noNul_ascii (by decide)

section Logging

variable (statsFd : Int) (literals : AllocationClass → Fin (2 ^ 64))

/-- `log_allocation`, whose literals lie at `literals`. -/
def logAllocation (stale : Nat → Byte) (size : Nat) : Option (List Write) :=
  let c := allocationClass size
  if statsFd ≥ 0 then
    fseLog stale statsFd.toNat (some statsMessage) [.string (literals c) c.text, .word size]
  else some []

/-- One allocation after the other. -/
def logAllocations (stale : Nat → Nat → Byte) : List Nat → Option (List Write)
  | [] => some []
  | size :: rest =>
      (logAllocation statsFd literals (stale rest.length) size).bind fun writes =>
        (logAllocations stale rest).map fun later => writes ++ later

end Logging

/-- The size that is logged; `free` logs none. -/
def Call.logged : Call → Option Nat
  | .malloc size => some size
  | .calloc nmemb size => some (u64 (nmemb * size))
  | .realloc _ newSize => some newSize
  | .free _ => none

def Event.logged : Event → Option Nat
  | .call c _ => c.logged
  | .write _ => none

section Script

/-- `read_text` makes every line end in a newline. -/
def readText : List Byte → List Byte
  | [] => []
  | c :: rest =>
      if c = ascii '\r' then
        match rest with
        | [] => [ascii '\n']
        | next :: tail =>
            if next = ascii '\n' then ascii '\n' :: readText tail
            else ascii '\n' :: readText (next :: tail)
      else c :: readText rest

/-- Where `splitlines` cuts a text in ASCII. -/
def isLineBreak (c : Byte) : Bool := c ∈ [0x0a#8, 0x0b#8, 0x0c#8, 0x0d#8, 0x1c#8, 0x1d#8, 0x1e#8]

/-- What `split` cuts at. -/
def isSpace (c : Byte) : Bool := isLineBreak c || c ∈ [0x09#8, 0x1f#8, 0x20#8]

/-- `COLOR_MAP`. -/
def colorMap (word : List Byte) : Option Byte :=
  if word = [ascii 'S'] then some (ascii 'r')
  else if word = [ascii 'M'] then some (ascii 'g')
  else if word = [ascii 'L'] then some (ascii 'b')
  else if word = [ascii 'H'] then some (ascii 'k')
  else none

/-- `CLASS_MAP` the other way round. -/
def AllocationClass.color : AllocationClass → Byte
  | .small => ascii 'r'
  | .medium => ascii 'g'
  | .large => ascii 'b'
  | .huge => ascii 'k'

/-- The digits of an `int`, with single underscores between them. -/
def intDigits : Bool → Int → List Byte → Option Int
  | digit, n, [] => if digit then some n else none
  | digit, n, c :: rest =>
      if ascii '0' ≤ c ∧ c ≤ ascii '9' then intDigits true (n * 10 + digitValue false c) rest
      else if c = ascii '_' ∧ digit then intDigits false n rest
      else none

def readInt (word : List Byte) : Option Int :=
  match word with
  | [] => none
  | c :: rest =>
      if c = ascii '-' then (intDigits false 0 rest).map fun n => -n
      else if c = ascii '+' then intDigits false 0 rest
      else intDigits false 0 (c :: rest)

/-- `parse`; there is no result where it raises. -/
def parseSample (line : List Byte) : Option (Byte × Int) :=
  match (pieces isSpace line).filter fun word => !word.isEmpty with
  | word :: size :: _ => (colorMap word).bind fun color => (readInt size).map fun n => (color, n)
  | _ => none

/-- The samples of a file of ASCII text, as `main` reads them. -/
def readSamples (file : List Byte) : Option (List (Byte × Int)) :=
  (pieces isLineBreak (readText file)).mapM parseSample

end Script

section Lines

variable {statsFd : Int} {literals : AllocationClass → Fin (2 ^ 64)}

/-- The line of an allocation. -/
def sampleLine (size : Nat) : List Byte :=
  (allocationClass size).letter :: ascii ' ' :: unsignedText size

def sampleOf (size : Nat) : Byte × Int := ((allocationClass size).color, size)

theorem logAllocation_output (stale : Nat → Byte) {size : Nat} (opened : 0 ≤ statsFd)
    (word : size < 2 ^ 64) :
    (logAllocation statsFd literals stale size).map output = some (sampleLine size ++ [ascii '\n']) := by
  unfold logAllocation fseLog vfseLog
  simp only [ge_iff_le, if_pos opened]
  rw [vfseLogLoop_output]
  · have parsed : parseFormat statsMessage.bytes =
        [.string, .text (ascii ' '), .size, .text (ascii '\n')] := by decide
    rw [parsed]
    simp [render, VArg.value, sampleLine, AllocationClass.text]
  · simp only [List.forall_mem_cons, VArg.Fits]
    refine ⟨⟨(literals _).isLt, ?_⟩, word, fun _ member => absurd member List.not_mem_nil⟩
    simp [AllocationClass.text]

theorem logAllocations_output (stale : Nat → Nat → Byte) {sizes : List Nat} (opened : 0 ≤ statsFd)
    (words : ∀ size ∈ sizes, size < 2 ^ 64) :
    (logAllocations statsFd literals stale sizes).map output =
      some ((sizes.map sampleLine).flatMap fun line => line ++ [ascii '\n']) := by
  induction sizes with
  | nil => rfl
  | cons size rest ih =>
      rw [List.forall_mem_cons] at words
      rcases Option.map_eq_some_iff.mp (@logAllocation_output statsFd literals
        (stale rest.length) size opened words.1) with ⟨writes, logged, text⟩
      rcases Option.map_eq_some_iff.mp (ih words.2) with ⟨later, rest', texts⟩
      rw [logAllocations, logged, Option.bind_some, rest', Option.map_some, Option.map_some,
        List.map_cons, List.flatMap_cons, ← text, ← texts]
      unfold output
      rw [List.flatMap_append]

theorem decimalGlyph_digit : ∀ d < 10,
    (ascii '0' ≤ decimalGlyph d ∧ decimalGlyph d ≤ ascii '9') ∧ isSpace (decimalGlyph d) = false ∧
      decimalGlyph d ≠ ascii '-' ∧ decimalGlyph d ≠ ascii '+' ∧ decimalGlyph d ≠ ascii '\r' := by
  decide

theorem letter_plain (c : AllocationClass) : isSpace c.letter = false ∧ c.letter ≠ ascii '\r' := by
  cases c <;> decide

theorem colorMap_letter (c : AllocationClass) : colorMap [c.letter] = some c.color := by
  cases c <;> decide

theorem intDigits_glyphs {digits : List Byte} (glyphs : ∀ c ∈ digits, ∃ d < 10, c = decimalGlyph d) :
    ∀ n, intDigits true n digits =
      some (digits.foldl (fun n c => n * 10 + digitValue false c) n) := by
  induction digits with
  | nil => exact fun n => rfl
  | cons c rest ih =>
      intro n
      rw [List.forall_mem_cons] at glyphs
      rcases glyphs.1 with ⟨d, digit, rfl⟩
      rw [intDigits, if_pos (decimalGlyph_digit d digit).1, ih glyphs.2, List.foldl_cons]

/-- What `%zu` prints is read back by `int`. -/
theorem readInt_unsignedText (n : Nat) : readInt (unsignedText n) = some (n : Int) := by
  have value := unsignedText_value false n
  have glyphs := @unsignedText_glyphs n
  have some := unsignedText_some n
  generalize unsignedText n = text at value glyphs some ⊢
  cases text with
  | nil => exact absurd rfl some
  | cons c rest =>
      have digits : ∀ c' ∈ rest, ∃ d < 10, c' = decimalGlyph d :=
        fun c' member => glyphs (List.mem_cons_of_mem c member)
      rcases glyphs List.mem_cons_self with ⟨d, digit, rfl⟩
      rcases decimalGlyph_digit d digit with ⟨isDigit, -, minus, plus, -⟩
      rw [readInt, if_neg minus, if_neg plus, intDigits, if_pos isDigit, intDigits_glyphs digits,
        ← value]
      rfl

theorem unsignedText_plain (n : Nat) : ∀ c ∈ unsignedText n, isSpace c = false := by
  intro c member
  rcases unsignedText_glyphs member with ⟨d, digit, rfl⟩
  exact (decimalGlyph_digit d digit).2.1

theorem parseSample_sampleLine (size : Nat) : parseSample (sampleLine size) = some (sampleOf size) := by
  have words : pieces isSpace (sampleLine size) =
      [[(allocationClass size).letter], unsignedText size] := by
    have letter : ∀ c ∈ [(allocationClass size).letter], isSpace c = false := by
      intro c member
      rw [List.mem_singleton.mp member]
      exact (letter_plain _).1
    calc
      _ = [(allocationClass size).letter] :: pieces isSpace (unsignedText size) :=
        pieces_cons letter (by decide) (unsignedText size)
      _ = _ := by rw [pieces_single (unsignedText_plain size) (unsignedText_some size)]
  have some : (unsignedText size).isEmpty = false := by
    simp [unsignedText_some size]
  unfold parseSample
  rw [words]
  simp [some, colorMap_letter, readInt_unsignedText, sampleOf]

theorem parseSample_lines (sizes : List Nat) :
    (sizes.map sampleLine).mapM parseSample = some (sizes.map sampleOf) := by
  induction sizes with
  | nil => rfl
  | cons size rest ih =>
      simp only [List.map_cons, List.mapM_cons, parseSample_sampleLine, ih]
      rfl

/-- A line keeps to itself. -/
theorem sampleLine_plain (size : Nat) :
    ∀ c ∈ sampleLine size, isLineBreak c = false ∧ c ≠ ascii '\r' := by
  intro c member
  rcases List.mem_cons.mp member with rfl | member
  · have plain := letter_plain (allocationClass size)
    unfold isSpace at plain
    rw [Bool.or_eq_false_iff] at plain
    exact ⟨plain.1.1, plain.2⟩
  rcases List.mem_cons.mp member with rfl | member
  · decide
  · rcases unsignedText_glyphs member with ⟨d, digit, rfl⟩
    rcases decimalGlyph_digit d digit with ⟨-, plain, -, -, other⟩
    unfold isSpace at plain
    rw [Bool.or_eq_false_iff] at plain
    exact ⟨plain.1, other⟩

end Lines

section Files

theorem readText_other {c : Byte} (other : c ≠ ascii '\r') (rest : List Byte) :
    readText (c :: rest) = c :: readText rest := by
  conv_lhs => unfold readText
  exact if_neg other

theorem readText_plain {text : List Byte} (none : ∀ c ∈ text, c ≠ ascii '\r') :
    readText text = text := by
  induction text with
  | nil => rfl
  | cons c rest ih =>
      rw [List.forall_mem_cons] at none
      rw [readText_other none.1, ih none.2]

/-- What follows a newline is read by itself. -/
theorem readText_newline (front : List Byte) : ∃ front', ∀ rest,
    readText (front ++ ascii '\n' :: rest) = front' ++ ascii '\n' :: readText rest := by
  induction front using readText.induct with
  | case1 =>
      refine ⟨[], fun rest => ?_⟩
      exact readText_other (by decide) rest
  | case2 =>
      refine ⟨[], fun rest => ?_⟩
      simp [readText]
  | case3 tail ih =>
      rcases ih with ⟨front', ih⟩
      refine ⟨ascii '\n' :: front', fun rest => ?_⟩
      simp [readText, ih]
  | case4 next tail other ih =>
      rcases ih with ⟨front', ih⟩
      refine ⟨ascii '\n' :: front', fun rest => ?_⟩
      have step := ih rest
      rw [List.cons_append] at step
      simp [readText, other, step]
  | case5 c tail other ih =>
      rcases ih with ⟨front', ih⟩
      refine ⟨c :: front', fun rest => ?_⟩
      rw [List.cons_append, readText_other other, ih, List.cons_append]

/-- The lines of statistics are read, after what a file had before. -/
theorem readSamples_append {earlier : List Byte} {old : List (Byte × Int)} (sizes : List Nat)
    (before : readSamples earlier = some old)
    (ends : earlier = [] ∨ ∃ front, earlier = front ++ [ascii '\n']) :
    readSamples (earlier ++ (sizes.map sampleLine).flatMap fun line => line ++ [ascii '\n']) =
      some (old ++ sizes.map sampleOf) := by
  generalize file : ((sizes.map sampleLine).flatMap fun line => line ++ [ascii '\n']) = text
  have plain : ∀ c ∈ text, c ≠ ascii '\r' := by
    intro c member
    rw [← file] at member
    rcases List.mem_flatMap.mp member with ⟨line, lines, inside⟩
    rcases List.mem_map.mp lines with ⟨size, -, rfl⟩
    rcases List.mem_append.mp inside with inside | last
    · exact (sampleLine_plain size c inside).2
    · rw [List.mem_singleton.mp last]
      decide
  have cut : pieces isLineBreak text = sizes.map sampleLine := by
    rw [← file]
    apply pieces_rows (by decide)
    intro line member c inside
    rcases List.mem_map.mp member with ⟨size, -, rfl⟩
    exact (sampleLine_plain size c inside).1
  have samples : (pieces isLineBreak text).mapM parseSample = some (sizes.map sampleOf) := by
    rw [cut]
    exact parseSample_lines sizes
  rcases ends with rfl | ⟨front, rfl⟩
  · have nothing : old = [] := (Option.some.inj before).symm
    rw [nothing, List.nil_append, List.nil_append]
    unfold readSamples
    rw [readText_plain plain, samples]
  · rcases readText_newline front with ⟨front', read⟩
    have alone : readText (front ++ [ascii '\n']) = front' ++ [ascii '\n'] := read []
    unfold readSamples at before ⊢
    rw [alone] at before
    rw [List.append_assoc, List.singleton_append, read, readText_plain plain,
      ← List.singleton_append, ← List.append_assoc, pieces_append (by decide), List.mapM_append,
      before, samples]
    rfl

end Files

section Runs

variable {answers : Env → Prop} {events : List Event} {s t : Session}

theorem logged_words (run : Trace (Session.Step answers) events s t) :
    ∀ size ∈ events.filterMap Event.logged, size < 2 ^ 64 := by
  induction run with
  | nil s => exact fun size member => absurd member List.not_mem_nil
  | @cons event events s t u first _ ih =>
      intro size member
      rw [List.filterMap_cons] at member
      cases logged : event.logged with
      | none =>
          rw [logged] at member
          exact ih size member
      | some n =>
          rw [logged] at member
          rcases List.mem_cons.mp member with rfl | later
          · cases first with
            | @call _ env fuel call result w legal _ _ =>
                cases call with
                | malloc n => exact Option.some.inj logged ▸ legal.1
                | calloc nmemb n => exact Option.some.inj logged ▸ Nat.mod_lt _ (by decide)
                | realloc ptr n => exact Option.some.inj logged ▸ legal.1
                | free ptr => simp [Event.logged, Call.logged] at logged
            | write inside => simp [Event.logged] at logged
          · exact ih size later

/-- The script reads the statistics of any run as they were logged, after those of the runs that
used the file before. -/
theorem statistics_read {statsFd : Int} {earlier : List Byte} {old : List (Byte × Int)}
    (literals : AllocationClass → Fin (2 ^ 64)) (stale : Nat → Nat → Byte) (opened : 0 ≤ statsFd)
    (before : readSamples earlier = some old)
    (ends : earlier = [] ∨ ∃ front, earlier = front ++ [ascii '\n'])
    (run : Trace (Session.Step answers) events s t) :
    ∃ writes, logAllocations statsFd literals stale (events.filterMap Event.logged) = some writes ∧
      readSamples (earlier ++ output writes) =
        some (old ++ (events.filterMap Event.logged).map sampleOf) := by
  rcases Option.map_eq_some_iff.mp (@logAllocations_output statsFd literals stale _ opened
    (logged_words run)) with ⟨writes, logged, text⟩
  refine ⟨writes, logged, ?_⟩
  rw [text]
  exact readSamples_append _ before ends

/-- A huge and a small allocation, in a file that has an allocation of no bytes. -/
theorem statistics_read_two : ∃ (s : Session) (events : List Event) (writes : List Write),
    s.live.length = 2 ∧
    logAllocations 3 (fun _ => 8192) (fun _ _ => 0#8) (events.filterMap Event.logged) = some writes ∧
      readSamples (['H', ' ', '0', '\n'].map ascii ++ output writes) =
        some ([(ascii 'k', 0)] ++ (events.filterMap Event.logged).map sampleOf) := by
  have played : (Session.play (.willing fun n => (n + 1) * 2 ^ 44) 3 (2 ^ 45)
      [.malloc (2 ^ 21), .malloc 16]).map (fun s => s.live.length) = some 2 := by
    decide +kernel
  rcases Option.map_eq_some_iff.mp played with ⟨s, run, two⟩
  rcases @play_steps (fun _ => True) s _ _ _ _ trivial run with ⟨w, events, init, steps⟩
  have before : readSamples (['H', ' ', '0', '\n'].map ascii) = some [(ascii 'k', 0)] := by
    decide
  have ends : ∃ front, ['H', ' ', '0', '\n'].map ascii = front ++ [ascii '\n'] :=
    ⟨['H', ' ', '0'].map ascii, rfl⟩
  rcases statistics_read (fun _ => 8192) (fun _ _ => 0#8) (by decide : (0 : Int) ≤ 3) before
    (Or.inr ends) steps with ⟨writes, logged, read⟩
  exact ⟨s, events, writes, two, logged, read⟩

end Runs

section Classes

theorem allocationClass_congr {n m : Nat} (some : 1 ≤ n ↔ 1 ≤ m)
    (small : n ≤ smallSizeMaxRegion ↔ m ≤ smallSizeMaxRegion)
    (medium : n ≤ mediumSizeMaxRegion ↔ m ≤ mediumSizeMaxRegion)
    (large : n ≤ largeSizeMaxRegion ↔ m ≤ largeSizeMaxRegion) :
    allocationClass n = allocationClass m := by
  unfold allocationClass isSizeSmall isSizeMedium isSizeLarge
  simp only [some, small, medium, large, ← not_le]

/-- The class of a size is that of its region. -/
theorem allocationClass_regionSize {size : Nat} (some : 1 ≤ size) (room : size ≤ sizeMax - 4095) :
    allocationClass (regionSize size) = allocationClass size := by
  have least := regionSize_least some room
  have bound : ∀ len ∈ regionLengths, regionSize size ≤ len ↔ size ≤ len := by
    intro len isLength
    constructor
    · exact least.1.2.trans
    · exact fun enough => least.2 ⟨isLength, enough⟩
  apply allocationClass_congr
  · exact iff_of_true (some.trans least.1.2) some
  · exact bound _ (Or.inl ⟨31, by decide, rfl⟩)
  · exact bound _ (Or.inl ⟨35, by decide, rfl⟩)
  · exact bound _ (Or.inl ⟨42, by decide, rfl⟩)

theorem allocationClass_regular {size : Nat} (room : size ≤ sizeMax - 4095) :
    allocationClass (regionSize size) = allocationClass size ↔ 1 ≤ size := by
  rcases Nat.eq_zero_or_pos size with rfl | some
  · decide
  · exact iff_of_true (allocationClass_regionSize some room) some

theorem allocationClass_request {size : Nat} (room : requestSize size ≤ sizeMax - 4095) :
    allocationClass (regionSize (requestSize size)) = allocationClass size ↔ 1 ≤ size := by
  rcases Nat.eq_zero_or_pos size with rfl | some
  · decide
  · have same : requestSize size = size := if_neg (Nat.ne_of_gt some)
    rw [same] at room ⊢
    exact iff_of_true (allocationClass_regionSize some room) some

theorem allocationClass_small {size : Nat} : allocationClass size = .small ↔ isSizeSmall size := by
  unfold allocationClass
  split_ifs <;> simp_all

/-- A region for no bytes has the class of the smallest. -/
theorem allocationClass_wrapped {size : Nat} (none : alignupPage size = 0) :
    allocationClass (regionSize (requestSize (alignupPage size))) ≠ allocationClass size ∧
      ¬ (smallSizeMaxRegion < size ∧ size ≤ sizeMax - 4095) := by
  have smallest : allocationClass (regionSize (requestSize 0)) = .small := by decide
  unfold alignupPage clearLow u64 pageSize at none
  constructor
  · rw [show alignupPage size = 0 from none, smallest]
    intro same
    have small := allocationClass_small.mp same.symm
    unfold isSizeSmall smallSizeMaxRegion at small
    omega
  · unfold smallSizeMaxRegion sizeMax
    omega

/-- Whole pages are no small size, and none at all once they wrap. -/
theorem allocationClass_pages {size : Nat} (word : size < 2 ^ 64)
    (room : requestSize (alignupPage size) ≤ sizeMax - 4095) :
    allocationClass (regionSize (requestSize (alignupPage size))) = allocationClass size ↔
      smallSizeMaxRegion < size ∧ size ≤ sizeMax - 4095 := by
  rcases Nat.eq_zero_or_pos (alignupPage size) with none | some
  · exact iff_of_false (allocationClass_wrapped none).1 (allocationClass_wrapped none).2
  · have same : requestSize (alignupPage size) = alignupPage size := if_neg (Nat.ne_of_gt some)
    rw [same] at room ⊢
    rw [allocationClass_regionSize some room]
    constructor
    · intro class_
      by_contra other
      have least : pageSize ≤ alignupPage size :=
        Nat.le_of_dvd some (Nat.dvd_of_mod_eq_zero (alignupPage_aligned size))
      have small : isSizeSmall size := by
        unfold isSizeSmall smallSizeMaxRegion at *
        unfold alignupPage clearLow u64 pageSize sizeMax at *
        omega
      rw [allocationClass_small.mpr small, allocationClass_small] at class_
      exact absurd (least.trans class_.2) (by decide)
    · intro both
      have spec := alignupPage_spec both.2
      have pages : ∀ bound, bound % 4096 = 0 → (alignupPage size ≤ bound ↔ size ≤ bound) := by
        intro bound whole
        omega
      have large : smallSizeMaxRegion < alignupPage size := both.1.trans_le spec.1
      apply allocationClass_congr
      · exact iff_of_true some (Nat.zero_lt_of_lt both.1)
      · exact iff_of_false (Nat.not_le_of_gt large) (Nat.not_le_of_gt both.1)
      · exact pages mediumSizeMaxRegion (by decide)
      · exact pages largeSizeMaxRegion (by decide)

/-- A region that is passed to `sealloc_realloc` is a mapping of its own. -/
def Session.PassesHuge (s : Session) (call : Call) : Prop :=
  ∃ huge ∈ s.world.arena.hugeAllocList, call.old = some (s.world.huges huge).key

/-- The class that is logged is that of the region that is returned, but for a size of no bytes, and
for a huge region that is reallocated to a small size or to one that wraps. -/
theorem class_logged {s : Session} {call : Call} {env : Env} {fuel size q : Nat} {w : World}
    (reach : Reach anyCalls s) (legal : call.Legal s)
    (run : call.run env fuel s.world = .ok (some q) w) (logged : call.logged = some size) :
    allocationClass (w.regionLen q) = allocationClass size ↔
      1 ≤ size ∧ (s.PassesHuge call → smallSizeMaxRegion < size ∧ size ≤ sizeMax - 4095) := by
  rcases reach.inv.sized legal run with ⟨word, o, located⟩
  rcases (reach.inv.answered legal run).inv with ⟨g', world'⟩
  have room := regionSize_room word (world'.located_pos located)
  rw [world'.regionLen located]
  have fresh : call.old = none → (allocationClass (regionSize (requestSize size)) =
      allocationClass size ↔ 1 ≤ size) → (allocationClass (regionSize (requestSize size)) =
      allocationClass size ↔
        1 ≤ size ∧ (s.PassesHuge call → smallSizeMaxRegion < size ∧ size ≤ sizeMax - 4095)) := by
    intro none class_
    have passes : ¬ s.PassesHuge call := by
      rintro ⟨huge, -, passed⟩
      simp [none] at passed
    simp [class_, passes]
  cases call with
  | malloc n =>
      obtain rfl : n = size := Option.some.inj logged
      exact fresh rfl (allocationClass_request room)
  | calloc nmemb n =>
      obtain rfl : u64 (nmemb * n) = size := Option.some.inj logged
      exact fresh rfl (allocationClass_request room)
  | realloc ptr n =>
      obtain rfl : n = size := Option.some.inj logged
      cases ptr with
      | none => exact fresh rfl (allocationClass_request room)
      | some p =>
          rcases legal.2 p rfl with ⟨region, member, rfl⟩
          rcases reach.inv.inv with ⟨g, world⟩
          rcases reach.inv.located region member with ⟨from_, old⟩
          rw [world.serves_realloc old] at room ⊢
          cases from_ with
          | regular chunk b run =>
              have passes : ¬ s.PassesHuge (.realloc (some region.ptr) n) := by
                rintro ⟨huge, listed, passed⟩
                have found : Located s.world region.ptr (.huge huge) (s.world.huges huge).len :=
                  ⟨listed, (Option.some.inj passed).symm, rfl⟩
                have same := (world.located_unique old found).1
                simp at same
              have class_ := allocationClass_regular room
              refine class_.trans ⟨fun some => ⟨some, fun huge => absurd huge passes⟩, And.left⟩
          | huge huge =>
              have passes : s.PassesHuge (.realloc (some region.ptr) n) :=
                ⟨huge, old.1, congrArg some old.2.1.symm⟩
              have class_ := allocationClass_pages legal.1 room
              simp only [passes, forall_true_left]
              refine class_.trans ⟨fun both => ⟨?_, both⟩, And.right⟩
              exact Nat.zero_lt_of_lt both.1
  | free ptr => simp [Call.logged] at logged

/-- A huge region that stays huge. -/
theorem class_logged_page : ∃ (s : Session) (w : World) (q : Nat), Reach anyCalls s ∧
    s.PassesHuge (.realloc (some (2 ^ 46)) (2 ^ 21 + 1)) ∧
    (allocationClass (w.regionLen q) = allocationClass (2 ^ 21 + 1) ↔
      1 ≤ 2 ^ 21 + 1 ∧ (s.PassesHuge (.realloc (some (2 ^ 46)) (2 ^ 21 + 1)) →
        smallSizeMaxRegion < 2 ^ 21 + 1 ∧ 2 ^ 21 + 1 ≤ sizeMax - 4095)) := by
  have played : (Session.play (.willing fun n => (n + 1) * 2 ^ 44) 3 (2 ^ 45)
      [.malloc (2 ^ 21)]).map (fun s => (s.live,
        s.world.arena.hugeAllocList.map fun huge => (s.world.huges huge).key,
        ((Call.realloc (some (2 ^ 46)) (2 ^ 21 + 1)).run (.willing fun n => (n + 1) * 2 ^ 44) 3
          s.world).returns fun r _ => r.isSome)) =
            some ([⟨2 ^ 46, 2 ^ 21, 2 ^ 21⟩], [2 ^ 46], true) := by
    decide +kernel
  rcases Option.map_eq_some_iff.mp played with ⟨s, run, parts⟩
  rw [Prod.mk.injEq, Prod.mk.injEq] at parts
  rcases parts with ⟨live, huges, returned⟩
  have reach : Reach anyCalls s := play_reach (fun _ _ _ _ => trivial) (by decide) run
  have legal : (Call.realloc (some (2 ^ 46)) (2 ^ 21 + 1)).Legal s := by
    refine ⟨by decide, ?_⟩
    intro p same
    refine ⟨⟨2 ^ 46, 2 ^ 21, 2 ^ 21⟩, ?_, Option.some.inj same⟩
    rw [live]
    exact List.mem_singleton_self _
  have passes : s.PassesHuge (.realloc (some (2 ^ 46)) (2 ^ 21 + 1)) := by
    have listed : 2 ^ 46 ∈ s.world.arena.hugeAllocList.map fun huge => (s.world.huges huge).key := by
      rw [huges]
      exact List.mem_singleton_self _
    rcases List.mem_map.mp listed with ⟨huge, member, key⟩
    exact ⟨huge, member, congrArg some key.symm⟩
  rcases Outcome.of_returns returned with ⟨r, w, call, isPtr⟩
  rcases Option.isSome_iff_exists.mp isPtr with ⟨q, rfl⟩
  exact ⟨s, w, q, reach, passes, class_logged reach legal call rfl⟩

end Classes

end Sealloc
