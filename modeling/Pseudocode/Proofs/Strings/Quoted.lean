import Std.Data.String.ToInt
import Pseudocode.Proofs.Display.Form
import Pseudocode.Proofs.Printing.Piece
/-
# `Proofs.Strings.Quoted` — strings as they are shown

A string is shown between quotes that depend on all of it, and some of its characters are
escaped.  Each of them can be read back from the front of what is shown, whatever follows
(`readFirst_quoteChar`), so no two strings are shown alike (`quoted_inj`).

Neither are two atoms: a shown string starts with a quote, a number with a digit or a sign, and
the other atoms with a capital letter (`text_inj`).

The scanner takes what is shown for one literal, but it reads back less: it has no escape by
number.  A control that is shown by its number stays as it is shown, and is warned about; every
other character comes back, whatever quotes, backslashes and escapes stand around it
(`scan_quoted`).
-/
namespace Pseudocode

open Scan

namespace Text

/-! ## No two strings are shown alike -/

/-- The number that a digit stands for. -/
def hexDigit (c : Char) : Nat := if c ≤ '9' then c.toNat - '0'.toNat else c.toNat - 'a'.toNat + 10

/-- Reads back one character that is shown between quotes, and what follows it. -/
def readFirst : List Char → Option (Char × List Char)
  | '\\' :: 'n' :: rest => some ('\n', rest)
  | '\\' :: 't' :: rest => some ('\t', rest)
  | '\\' :: 'r' :: rest => some ('\r', rest)
  | '\\' :: 'x' :: a :: b :: rest => some (Char.ofNat (16 * hexDigit a + hexDigit b), rest)
  | '\\' :: c :: rest => some (c, rest)
  | c :: rest => some (c, rest)
  | [] => none

/-- A byte is written with two digits. -/
theorem toList_hex {n : Nat} (h : n < 256) :
    (hex 2 n).toList = [Nat.digitChar (n / 16), Nat.digitChar (n % 16)] := by
  rw [hex, String.toList_ofList]
  by_cases single : n < 16
  · rw [Nat.toDigits_of_lt_base single, Nat.div_eq_of_lt single, Nat.mod_eq_of_lt single]
    rfl
  · have leading : n / 16 < 16 := by omega
    rw [Nat.toDigits_of_base_le (by decide) (by omega), Nat.toDigits_of_lt_base leading]
    rfl

theorem hexDigit_digitChar : ∀ d < 16, hexDigit (Nat.digitChar d) = d := by decide

theorem readFirst_of_ne {c : Char} (plain : c ≠ '\\') (rest : List Char) :
    readFirst (c :: rest) = some (c, rest) := by
  unfold readFirst
  split <;> simp_all

/-- A character that is shown can be read back, whatever follows it. -/
theorem readFirst_quoteChar {q : Char} (isQuote : q = '"' ∨ q = '\'') (c : Char)
    (rest : List Char) : readFirst (quoteChar q c ++ rest) = some (c, rest) := by
  unfold quoteChar
  split_ifs with slash line tab back quote control
  · rw [slash]; rfl
  · rw [line]; rfl
  · rw [tab]; rfl
  · rw [back]; rfl
  · rcases isQuote with rfl | rfl <;> rw [quote] <;> rfl
  · have small : c.toNat < 128 := by
      simp only [Bool.or_eq_true, decide_eq_true_eq] at control
      omega
    rw [toList_hex (by omega)]
    change some (Char.ofNat (16 * hexDigit (Nat.digitChar _) + hexDigit (Nat.digitChar _)), rest) = _
    rw [hexDigit_digitChar _ (by omega), hexDigit_digitChar _ (by omega), Nat.div_add_mod,
      Char.ofNat_toNat]
  · exact readFirst_of_ne slash rest

/-- What is shown between the same quotes shows the same characters. -/
theorem flatMap_quoteChar_inj {q : Char} (isQuote : q = '"' ∨ q = '\'') :
    ∀ {cs ds : List Char}, cs.flatMap (quoteChar q) = ds.flatMap (quoteChar q) → cs = ds
  | [], [], _ => rfl
  | [], d :: ds, same => by
    have first := readFirst_quoteChar isQuote d (ds.flatMap (quoteChar q))
    rw [← List.flatMap_cons, ← same] at first
    cases first
  | c :: cs, [], same => by
    have first := readFirst_quoteChar isQuote c (cs.flatMap (quoteChar q))
    rw [← List.flatMap_cons, same] at first
    cases first
  | c :: cs, d :: ds, same => by
    rw [List.flatMap_cons, List.flatMap_cons] at same
    have first := readFirst_quoteChar isQuote c (cs.flatMap (quoteChar q))
    rw [same, readFirst_quoteChar isQuote d] at first
    obtain ⟨rfl, rest⟩ := Prod.mk.inj (Option.some.inj first)
    rw [flatMap_quoteChar_inj isQuote rest.symm]

theorem quoteFor_cases (cs : List Char) : quoteFor cs = '"' ∨ quoteFor cs = '\'' := by
  unfold quoteFor
  split
  · exact .inl rfl
  · exact .inr rfl

theorem toList_quoted (s : String) : (quoted s).toList =
    quoteFor s.toList :: (s.toList.flatMap (quoteChar (quoteFor s.toList)) ++ [quoteFor s.toList]) := by
  rw [quoted, String.toList_ofList, List.cons_append]

/-- No two strings are shown alike. -/
theorem quoted_inj {s t : String} (same : quoted s = quoted t) : s = t := by
  have chars := congrArg String.toList same
  rw [toList_quoted, toList_quoted] at chars
  obtain ⟨quotes, rest⟩ := List.cons.inj chars
  rw [← quotes] at rest
  exact String.toList_injective
    (flatMap_quoteChar_inj (quoteFor_cases s.toList) (List.append_cancel_right rest))

end Text

namespace Atom

/-- A number is written with digits and a sign. -/
theorem isDigit_of_mem_int {n : Int} {c : Char} (mem : c ∈ n.repr.toList) :
    c = '-' ∨ c.isDigit = true := by
  cases n with
  | ofNat n =>
    refine .inr (Nat.isDigit_of_mem_toDigits (b := 10) (n := n) (by decide) (by decide) ?_)
    rwa [← Nat.toList_repr]
  | negSucc n =>
    have chars : (Int.negSucc n).repr.toList = '-' :: Nat.toDigits 10 (n + 1) := by
      rw [← Nat.toList_repr]
      exact String.toList_append
    rw [chars] at mem
    rcases List.mem_cons.mp mem with sign | digit
    · exact .inl sign
    · exact .inr (Nat.isDigit_of_mem_toDigits (by decide) (by decide) digit)

theorem repr_int_ne_nil (n : Int) : n.repr.toList ≠ [] := by
  intro nil
  cases n with
  | ofNat n => exact Nat.repr_ne_empty (String.toList_eq_nil_iff.mp nil)
  | negSucc n => exact List.cons_ne_nil _ _ (String.toList_append.symm.trans nil)

/-- The sort of an atom, as its first character tells it. -/
def sortOf (c : Char) : Nat :=
  if c = 'N' then 0 else if c = 'T' then 1 else if c = 'F' then 2
  else if c = '"' ∨ c = '\'' then 3 else 4

def sort : Atom → Nat
  | .none => 0
  | .bool b => if b then 1 else 2
  | .string _ => 3
  | .int _ => 4

theorem sortOf_digit {c : Char} (digit : c = '-' ∨ c.isDigit = true) : sortOf c = 4 := by
  have apart : ∀ d : Char, d ≠ '-' → d.isDigit = false → c ≠ d := by
    rintro d notSign notDigit rfl
    rcases digit with sign | digit
    · exact notSign sign
    · rw [notDigit] at digit
      cases digit
  have quote := not_or.mpr
    ⟨apart '"' (by decide) (by decide), apart '\'' (by decide) (by decide)⟩
  rw [sortOf, if_neg (apart 'N' (by decide) (by decide)), if_neg (apart 'T' (by decide) (by decide)),
    if_neg (apart 'F' (by decide) (by decide)), if_neg quote]

theorem exists_head_text (a : Atom) : ∃ c rest, a.text.toList = c :: rest ∧ sortOf c = a.sort := by
  cases a with
  | none => exact ⟨'N', ['o', 'n', 'e'], rfl, rfl⟩
  | bool b =>
    cases b with
    | false => exact ⟨'F', ['a', 'l', 's', 'e'], rfl, rfl⟩
    | true => exact ⟨'T', ['r', 'u', 'e'], rfl, rfl⟩
  | int n =>
    cases chars : n.repr.toList with
    | nil => exact absurd chars (repr_int_ne_nil n)
    | cons c rest =>
      exact ⟨c, rest, chars, sortOf_digit (isDigit_of_mem_int (chars ▸ List.mem_cons_self))⟩
  | string s =>
    refine ⟨_, _, Text.toList_quoted s, ?_⟩
    rcases Text.quoteFor_cases s.toList with same | same <;> rw [same] <;> rfl

/-- No two atoms are shown alike. -/
theorem text_inj {a b : Atom} (same : a.text = b.text) : a = b := by
  obtain ⟨c, rest, ha, sort⟩ := a.exists_head_text
  obtain ⟨d, rest', hb, sort'⟩ := b.exists_head_text
  rw [same, hb] at ha
  obtain ⟨rfl, -⟩ := List.cons.inj ha
  have sorts : a.sort = b.sort := sort.symm.trans sort'
  rcases a with _ | (_ | _) | m | s <;> rcases b with _ | (_ | _) | n | t
  case int.int => exact congrArg Atom.int (Int.repr_inj.mp same)
  case string.string => exact congrArg Atom.string (Text.quoted_inj same)
  all_goals first | rfl | cases sorts

end Atom

theorem Heap.repr_value (h : Heap) (a : Atom) : h.repr a.value = a.text :=
  h.reprTo_atom a (Nat.succ_pos _)

theorem Heap.repr_atom_inj {h : Heap} {a b : Atom} (same : h.repr a.value = h.repr b.value) :
    a = b := by
  rw [repr_value, repr_value] at same
  exact Atom.text_inj same

/-! ## A shown string is one literal -/

/-- A printable character, or a control that has an escape of its own. -/
def isWritable (c : Char) : Bool :=
  (0x20 ≤ c.toNat && c.toNat != 0x7F) || c = '\t' || c = '\n' || c = '\r'

theorem isWritable_eq_false_iff {c : Char} : isWritable c = false ↔
    (c.toNat < 0x20 ∨ c.toNat = 0x7F) ∧ c ≠ '\t' ∧ c ≠ '\n' ∧ c ≠ '\r' := by
  simp only [isWritable, Bool.or_eq_false_iff, Bool.and_eq_false_iff, decide_eq_false_iff_not,
    bne_eq_false_iff_eq, Nat.not_le, and_assoc]

theorem escapes_quoteChar {q c : Char} (isQuote : q = '"' ∨ q = '\'') (h : isWritable c = true) :
    Piece.Escapes q (Text.quoteChar q) c := by
  unfold Piece.Escapes Text.quoteChar
  split_ifs with slash line tab back quote control
  · exact .inl ⟨'\\', rfl, by rw [slash]; rfl⟩
  · exact .inl ⟨'n', rfl, by rw [line]; rfl⟩
  · exact .inl ⟨'t', rfl, by rw [tab]; rfl⟩
  · exact .inl ⟨'r', rfl, by rw [back]; rfl⟩
  · refine .inl ⟨c, rfl, ?_⟩
    rcases isQuote with rfl | rfl <;> rw [quote] <;> rfl
  · simp only [Bool.or_eq_true, decide_eq_true_eq] at control
    rw [isWritable_eq_false_iff.mpr ⟨control, tab, line, back⟩] at h
    cases h
  · exact .inr ⟨rfl, slash, quote, line⟩

namespace Text

/-- A control without an escape of its own is shown by its number. -/
theorem quoteChar_of_control {q c : Char} (isQuote : q = '"' ∨ q = '\'')
    (h : isWritable c = false) :
    quoteChar q c = ['\\', 'x', Nat.digitChar (c.toNat / 16), Nat.digitChar (c.toNat % 16)] := by
  obtain ⟨number, tab, line, back⟩ := isWritable_eq_false_iff.mp h
  unfold quoteChar
  split_ifs with slash quote control
  · exact absurd (slash ▸ h) (by decide)
  · rcases isQuote with rfl | rfl <;> exact absurd (quote ▸ h) (by decide)
  · rw [toList_hex (by omega)]
  · simp only [Bool.or_eq_true, decide_eq_true_eq] at control
    exact absurd number control

/-- What a shown character is read back as: itself, or the escape by number that shows it. -/
def recover (c : Char) : List Char :=
  if isWritable c then [c]
  else ['\\', 'x', Nat.digitChar (c.toNat / 16), Nat.digitChar (c.toNat % 16)]

/-- What the literal that shows a string stands for. -/
def recovered (s : String) : String := String.ofList (s.toList.flatMap recover)

theorem length_flatMap_recover (cs : List Char) :
    (cs.flatMap recover).length = cs.length + 3 * cs.countP (!isWritable ·) := by
  induction cs with
  | nil => rfl
  | cons c cs ih =>
    rw [List.flatMap_cons, List.length_append, ih, List.countP_cons, List.length_cons, recover]
    cases isWritable c <;> simp <;> omega

theorem recovered_eq_iff (s : String) : recovered s = s ↔ s.toList.all isWritable = true := by
  constructor
  · intro same
    have chars : s.toList.flatMap recover = s.toList := by
      rw [← String.toList_ofList (l := s.toList.flatMap recover)]
      exact congrArg String.toList same
    -- an escape by number is longer than what it shows
    have longer := length_flatMap_recover s.toList
    rw [chars] at longer
    have none : s.toList.countP (!isWritable ·) = 0 := by omega
    simpa using List.countP_eq_zero.mp none
  · intro writable
    have each : s.toList.flatMap recover = s.toList.flatMap fun c => [c] := by
      refine List.flatMap_congr fun c mem => ?_
      exact if_pos (List.all_eq_true.mp writable c mem)
    rw [recovered, each, List.flatMap_singleton', String.ofList_toList]

/-- Where the escapes by number begin in `cs`, shown between quotes `q` from `p` on: the spans of
their first two characters. -/
def numbersFrom (q : Char) (p : Position) : List Char → List Span
  | [] => []
  | c :: cs =>
    let later := numbersFrom q (p.past (quoteChar q c)) cs
    if isWritable c then later else ⟨p, p.past ['\\', 'x']⟩ :: later

theorem length_numbersFrom (q : Char) (p : Position) (cs : List Char) :
    (numbersFrom q p cs).length = cs.countP (!isWritable ·) := by
  induction cs generalizing p with
  | nil => rfl
  | cons c cs ih =>
    rw [numbersFrom, List.countP_cons]
    cases isWritable c <;> simp [ih]

section Reading

variable {q : Char} (isQuote : q = '"' ∨ q = '\'')

include isQuote

theorem standsFor_digit (n : Nat) :
    StandsFor q [Nat.digitChar n] [Nat.digitChar n] fun _ => [] := by
  refine standsFor_plain (by simp) ?_ (by simp)
  rcases isQuote with rfl | rfl <;> simp

theorem standsFor_quoteChar (c : Char) : StandsFor q (quoteChar q c) (recover c) fun p =>
    if isWritable c then [] else [(⟨p, p.past ['\\', 'x']⟩, 'x')] := by
  cases h : isWritable c with
  | true =>
    rw [recover, if_pos h]
    exact (escapes_quoteChar isQuote h).standsFor
  | false =>
    rw [recover, h, quoteChar_of_control isQuote h]
    exact (standsFor_noted (by decide) rfl).append
      ((standsFor_digit isQuote _).append (standsFor_digit isQuote _))

theorem standsFor_shown (cs : List Char) :
    StandsFor q (cs.flatMap (quoteChar q)) (cs.flatMap recover) fun p =>
      (numbersFrom q p cs).map (·, 'x') := by
  induction cs with
  | nil => exact .nil
  | cons c cs ih =>
    have both := (standsFor_quoteChar isQuote c).append ih
    have numbers : ∀ p : Position, (numbersFrom q p (c :: cs)).map (·, 'x') =
        (if isWritable c then [] else [(⟨p, p.past ['\\', 'x']⟩, 'x')]) ++
          (numbersFrom q (p.past (quoteChar q c)) cs).map (·, 'x') := by
      intro p
      rw [numbersFrom]
      cases isWritable c <;> rfl
    simpa only [List.flatMap_cons, numbers] using both

end Reading

end Text

/-- A text that is a literal is one token. -/
theorem Scan.StandsFor.scan {quote : Char} {w v : List Char}
    {unknown : Position → List (Span × Char)} (h : StandsFor quote w v unknown)
    (isQuote : quote = '"' ∨ quote = '\'') {source : String}
    (chars : source.toList = quote :: (w ++ [quote])) (file : String) :
    let stop := Position.start.past source.toList
    Scan.scan source file =
      { tokens := [⟨.string, String.ofList v, ⟨.start, stop⟩⟩, .endOfInput stop]
        warnings := (unknown (Position.start.next quote)).map (unknownEscape file)
        failure := none } := by
  intro stop
  have skip : skipped source.toList = ([], source.toList) := by
    rw [chars]
    rcases isQuote with rfl | rfl <;> rfl
  have here : Position.start.past (skipped source.toList).1 = .start := by
    rw [skip, Position.past_nil]
  have left : (skipped source.toList).2 = quote :: (w ++ [quote]) := by rw [skip, chars]
  obtain ⟨tokens, failure, warnings⟩ :=
    scanFrom_token source file left here (h.lexeme isQuote .start []) rfl
  have ending : scanFrom source file stop [] = ⟨[.endOfInput stop], [], none⟩ :=
    scanFrom_end source file rfl
  dsimp only [Lexeme.token] at tokens failure warnings
  rw [← chars, ending] at tokens failure warnings
  rw [List.append_nil] at warnings
  calc Scan.scan source file
    _ = ⟨(scanFrom source file .start source.toList).tokens,
          (scanFrom source file .start source.toList).warnings,
          (scanFrom source file .start source.toList).failure⟩ := rfl
    _ = _ := by rw [tokens, failure, warnings]

/-- A string as it is shown is one literal.  The literal stands for the string with every control
that has no escape of its own written as it is shown, each of these is warned about, and so it
stands for the string itself exactly if there is none. -/
theorem scan_quoted (s file : String) :
    (scan (Text.quoted s) file).failure = none ∧
      let r := scan (Text.quoted s) file
      let q := Text.quoteFor s.toList
      let stop := Position.start.past (Text.quoted s).toList
      r.tokens = [⟨.string, Text.recovered s, ⟨.start, stop⟩⟩, .endOfInput stop] ∧
      r.warnings = (Text.numbersFrom q (Position.start.next q) s.toList).map
        (fun span => unknownEscape file (span, 'x')) ∧
      r.warnings.map (·.code) = List.replicate (s.toList.countP (!isWritable ·)) "E1002" ∧
      (Text.recovered s = s ↔ s.toList.all isWritable = true) := by
  have isQuote := Text.quoteFor_cases s.toList
  have shown := Text.standsFor_shown isQuote s.toList
  rw [shown.scan isQuote (Text.toList_quoted s) file]
  refine ⟨rfl, rfl, ?_, ?_, Text.recovered_eq_iff s⟩
  · rw [List.map_map]
    rfl
  · rw [List.map_map, List.map_map, ← Text.length_numbersFrom, ← List.map_const']
    rfl

/-- Both quotes, a backslash and a control without an escape of its own. -/
example : (scan (Text.quoted "'\"\\\x1f") "").tokens.map (·.lexeme) = ["'\"\\\\x1f", ""] := by cbv

end Pseudocode
