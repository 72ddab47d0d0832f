import Mathlib.Data.List.Forall2
import Pseudocode.Proofs.Display.Form
import Pseudocode.Proofs.Printing.Statement
import Pseudocode.Proofs.Strings.Quoted
/-
# `Proofs.Display.Reading` — display forms are read as literals

The display form of a value is scanned as the pieces of its form (`finds_form`), and
these are parsed as the literal of the form (`reads_form`).  Here tokens may touch, so
what ends a word or a numeral is the character behind it; behind every display form
stands a delimiter or nothing.

A form is readable if its strings have only characters that the language has a way of
writing, its numbers can be written as digits with a sign, and the keys of its
dictionaries differ.  The scanner knows no escape for the other controls, and the
digits of the least number of all are out of range before the sign is seen.
-/
namespace Pseudocode

open Scan Grammar

/-! ## Readable forms -/

def Atom.readable : Atom → Bool
  | .int n => Value.minInt < n && n ≤ Value.maxInt
  | .string s => s.toList.all isWritable
  | _ => true

/-- Do no two keys address the same entry? -/
def distinctKeys (es : List Pair) : Bool := decide (es.map (·.key.value.keyForm)).Nodup

mutual

def Form.readable : Form → Bool
  | .atom s => s.readable
  | .array fs => formsReadable fs
  | .dict es => distinctKeys es && pairsReadable es

def formsReadable : List Form → Bool
  | [] => true
  | f :: fs => f.readable && formsReadable fs

def pairsReadable : List Pair → Bool
  | [] => true
  | .mk k f :: es => k.readable && f.readable && pairsReadable es

end

/-! ## Pieces and literals -/

def Atom.pieces : Atom → List Piece
  | .none => [.nothing]
  | .bool b => [.truth b]
  | .int (.ofNat n) => [.number n]
  | .int (.negSucc n) => [.unary .minus, .number (n + 1)]
  | .string s => [.quoted s]

def Atom.literal : Atom → Expr
  | .none => .none default
  | .bool b => .bool default b
  | .int (.ofNat n) => .int default n
  | .int (.negSucc n) => .unary default .minus (.int default (n + 1 : Nat))
  | .string s => .string default s

mutual

/-- The pieces of a display form. -/
def Form.pieces : Form → List Piece
  | .atom s => s.pieces
  | .array fs => .mark .leftBracket :: (separated (formsPieces fs) ++ [.mark .rightBracket])
  | .dict es => .mark .leftBrace :: (separated (pairsPieces es) ++ [.mark .rightBrace])

def formsPieces : List Form → List (List Piece)
  | [] => []
  | f :: fs => f.pieces :: formsPieces fs

def pairsPieces : List Pair → List (List Piece)
  | [] => []
  | .mk k f :: es => (k.pieces ++ .mark .colon :: f.pieces) :: pairsPieces es

end

mutual

/-- The expression that writes a form. -/
def Form.literal : Form → Expr
  | .atom s => s.literal
  | .array fs => .array default (formsLiterals fs)
  | .dict es => .dict default (pairsLiterals es)

def formsLiterals : List Form → List Expr
  | [] => []
  | f :: fs => f.literal :: formsLiterals fs

def pairsLiterals : List Pair → List Entry
  | [] => []
  | .mk k f :: es => .mk k.literal f.literal :: pairsLiterals es

end

/-! ## Scanning -/

/-- Before a rest of this kind, the characters are scanned as these pieces. -/
def Finds (R : List Char → Prop) (cs : List Char) (ps : List Piece) : Prop :=
  ∀ (source file : String) (p : Position) (rest : List Char), R rest →
    ∃ p' ts, ts.map Token.piece = ps ∧
      (scanFrom source file p (cs ++ rest)).tokens = ts ++ (scanFrom source file p' rest).tokens ∧
      (scanFrom source file p (cs ++ rest)).failure = (scanFrom source file p' rest).failure

/-- Any rest. -/
def Anything : List Char → Prop := fun _ => True

/-- Nothing, or a character that continues neither a word nor a numeral. -/
def Bounded (rest : List Char) : Prop :=
  ∀ c ∈ rest.head?, isWordPart c = false ∧ isNumberPart c = false

theorem bounded_cons {c : Char} {cs : List Char} (word : isWordPart c = false)
    (number : isNumberPart c = false) : Bounded (c :: cs) := by
  intro d first
  cases first
  exact ⟨word, number⟩

section Finds

variable {R R' : List Char → Prop} {cs cs' : List Char} {ps ps' : List Piece} {q : Piece}

theorem Finds.nil : Finds R [] [] :=
  fun _ _ p _ _ => ⟨p, [], rfl, rfl, rfl⟩

theorem Finds.append (first : Finds R cs ps) (second : Finds R' cs' ps')
    (link : ∀ rest, R' rest → R (cs' ++ rest)) : Finds R' (cs ++ cs') (ps ++ ps') := by
  intro source file p rest after
  obtain ⟨p₁, ts₁, pieces₁, tokens₁, failure₁⟩ :=
    first source file p (cs' ++ rest) (link rest after)
  obtain ⟨p₂, ts₂, pieces₂, tokens₂, failure₂⟩ := second source file p₁ rest after
  refine ⟨p₂, ts₁ ++ ts₂, by rw [List.map_append, pieces₁, pieces₂], ?_, ?_⟩
  · rw [List.append_assoc, tokens₁, tokens₂, List.append_assoc]
  · rw [List.append_assoc, failure₁, failure₂]

theorem Finds.mono (h : Finds R cs ps) (weaker : ∀ rest, R' rest → R rest) : Finds R' cs ps :=
  fun source file p rest after => h source file p rest (weaker rest after)

/-- A blank is dropped. -/
theorem finds_blank : Finds Anything [' '] [] := by
  intro source file p rest _
  have same : scanFrom source file p (' ' :: rest) = scanFrom source file (p.next ' ') rest := by
    rw [scanFrom, scanFrom]
    rfl
  refine ⟨p.next ' ', [], rfl, ?_⟩
  rw [List.singleton_append, List.nil_append, same]
  exact ⟨rfl, rfl⟩

theorem finds_piece {c : Char} (notBlank : isBlank c = false) (notHash : c ≠ '#')
    (reads : ∀ p rest, R rest → (Scan.lexeme p c (cs ++ rest)).Is q rest) :
    Finds R (c :: cs) [q] := by
  intro source file p rest after
  have left : (skipped (c :: cs ++ rest)).2 = c :: (cs ++ rest) := by
    simp [skipped, notBlank, notHash]
  obtain ⟨p', t, piece, tokens, failure⟩ :=
    scanFrom_step source file p left fun p => reads p rest after
  exact ⟨p', [t], by rw [List.map_cons, piece, List.map_nil], tokens, failure⟩

theorem finds_word {k : Kind} {s : String} {c : Char} (chars : s.toList = c :: cs)
    (start : isWordStart c = true) (parts : cs.all isWordPart = true)
    (kind : Kind.ofWord s = k) : Finds Bounded s.toList [⟨k, s⟩] := by
  obtain ⟨-, -, notBlank, notHash⟩ := of_not_openers rfl start
  rw [chars, ← kind]
  refine finds_piece notBlank notHash ?_
  intro p rest after
  exact Piece.lexeme_word p chars start parts fun d first => (after d first).1

theorem finds_number (n : Nat) : Finds Bounded n.repr.toList [.number n] := by
  obtain ⟨c, cs, chars, notBlank, notHash, reads⟩ := Piece.lexeme_number n
  rw [chars]
  refine finds_piece notBlank notHash ?_
  intro p rest after
  exact reads p rest fun d first => (after d first).2

/-- A character that no other makes a longer operator of. -/
theorem finds_sign {k : Kind} {s : String} {c : Char} (chars : s.toList = [c])
    (free : openers.contains c = false) (notDigit : isDigit c = false)
    (notWord : isWordStart c = false) (kind : symbolKind c = k)
    (single : ∀ rest, R rest → symbol c rest = (symbolKind c, [])) : Finds R [c] [⟨k, s⟩] := by
  have notOpener : c ∉ openers := by simpa using free
  obtain ⟨-, -, notBlank, notHash⟩ :=
    of_not_openers (f := fun d => !openers.contains d) (c := c) rfl (by simpa using notOpener)
  refine finds_piece notBlank notHash ?_
  intro p rest after
  refine Piece.lexeme_sign p chars notOpener notDigit notWord ?_
  rw [List.nil_append, single rest after, kind]

theorem symbol_eq_single {c : Char} (none : ∀ d, pairKind c d = none) (rest : List Char) :
    symbol c rest = (symbolKind c, []) := by
  unfold symbol
  split
  · next d _ => rw [none d]
  · rfl

theorem finds_delimiter {k : Kind} {c : Char} (chars : k.name.toList = [c])
    (free : openers.contains c = false) (notDigit : isDigit c = false)
    (notWord : isWordStart c = false) (kind : symbolKind c = k)
    (none : ∀ d, pairKind c d = none) : Finds Anything [c] [.mark k] :=
  finds_sign chars free notDigit notWord kind fun rest _ => symbol_eq_single none rest

theorem finds_colon : Finds Anything [':', ' '] [.mark .colon] := by
  have sign : Finds (fun rest => rest.head? = some ' ') [':'] [.mark .colon] := by
    refine finds_sign (k := .colon) rfl rfl rfl rfl rfl ?_
    intro rest first
    cases rest with
    | nil => cases first
    | cons d rest =>
      cases first
      rfl
  exact sign.append finds_blank fun _ _ => rfl

theorem finds_comma : Finds Anything [',', ' '] [.mark .comma] :=
  (finds_delimiter (k := .comma) rfl rfl rfl rfl rfl fun _ => rfl).append finds_blank
    fun _ _ => trivial

/-- Texts between commas. -/
theorem finds_separated {texts : List (List Char)} {pss : List (List Piece)}
    (each : List.Forall₂ (Finds Bounded) texts pss) :
    Finds Bounded ([',', ' '].intercalate texts) (separated pss) := by
  induction each with
  | nil => exact .nil
  | @cons text ps texts pss here later ih =>
    cases later with
    | nil =>
      rw [separated, List.flatMap_nil, List.append_nil]
      simpa [List.intercalate] using here
    | cons =>
      rw [List.intercalate_cons_cons, separated_cons_cons, List.append_assoc]
      refine here.append (finds_comma.append ih fun _ _ => trivial) fun rest _ => ?_
      exact bounded_cons rfl rfl

end Finds

/-! ## Display forms -/

theorem finds_quoted {s : String} (h : s.toList.all isWritable = true) :
    Finds Anything (Text.quoted s).toList [.quoted s] := by
  have isQuote := Text.quoteFor_cases s.toList
  have escapes : ∀ c ∈ s.toList, Piece.Escapes (Text.quoteFor s.toList)
      (Text.quoteChar (Text.quoteFor s.toList)) c :=
    fun c mem => escapes_quoteChar isQuote (List.all_eq_true.mp h c mem)
  rw [Text.quoted, String.toList_ofList, List.cons_append]
  refine finds_piece ?_ ?_ ?_
  · rcases isQuote with h | h <;> rw [h] <;> rfl
  · rcases isQuote with h | h <;> rw [h] <;> decide
  · intro p rest _
    rw [List.append_assoc, List.singleton_append]
    exact Piece.lexeme_quoted p isQuote escapes rest

theorem finds_atom {s : Atom} (h : s.readable = true) :
    Finds Bounded s.text.toList s.pieces := by
  cases s with
  | none => exact finds_word (c := 'N') rfl rfl rfl rfl
  | bool b =>
    cases b with
    | false => exact finds_word (c := 'F') rfl rfl rfl rfl
    | true => exact finds_word (c := 'T') rfl rfl rfl rfl
  | int n =>
    cases n with
    | ofNat n => exact finds_number n
    | negSucc n =>
      have sign : Finds Anything ['-'] [.unary .minus] :=
        finds_sign rfl rfl rfl rfl rfl fun rest _ => symbol_eq_single (fun _ => rfl) rest
      have chars : (toString (Int.negSucc n)).toList = ['-'] ++ (n + 1).repr.toList :=
        String.toList_append
      rw [Atom.text, chars]
      exact sign.append (finds_number (n + 1)) fun _ _ => trivial
  | string s => exact (finds_quoted h).mono fun _ _ => trivial

/-- What stands between brackets or braces. -/
theorem finds_enclosed {k k' : Kind} {c c' : Char} {texts : List String}
    {pss : List (List Piece)} (opening : Finds Anything [c] [.mark k])
    (closing : Finds Anything [c'] [.mark k']) (notWord : isWordPart c' = false)
    (notNumber : isNumberPart c' = false)
    (each : List.Forall₂ (Finds Bounded) (texts.map String.toList) pss) :
    Finds Bounded ([c] ++ (", ".intercalate texts).toList ++ [c'])
      (.mark k :: (separated pss ++ [Piece.mark k'])) := by
  rw [String.toList_intercalate, List.append_assoc]
  refine opening.append (Finds.append (finds_separated each) ?_ ?_) fun _ _ => trivial
  · exact closing.mono fun _ _ => trivial
  · exact fun rest _ => bounded_cons notWord notNumber

mutual

/-- A display form is scanned as the pieces of the form. -/
theorem finds_form : ∀ f : Form, f.readable = true → Finds Bounded f.text.toList f.pieces
  | .atom _, h => finds_atom h
  | .array fs, h => by
    have each := finds_forms fs h
    have chars : (Form.array fs).text.toList =
        ['['] ++ (", ".intercalate (formsText fs)).toList ++ [']'] := by
      simp only [Form.text, bracketed, String.toList_append]
      rfl
    rw [chars]
    exact finds_enclosed (finds_delimiter rfl rfl rfl rfl rfl fun _ => rfl)
      (finds_delimiter rfl rfl rfl rfl rfl fun _ => rfl) rfl rfl each
  | .dict es, h => by
    simp only [Form.readable, Bool.and_eq_true] at h
    have each := finds_pairs es h.2
    have chars : (Form.dict es).text.toList =
        ['\x7b'] ++ (", ".intercalate (pairsText es)).toList ++ ['\x7d'] := by
      simp only [Form.text, braced, String.toList_append]
      rfl
    rw [chars]
    exact finds_enclosed (finds_delimiter rfl rfl rfl rfl rfl fun _ => rfl)
      (finds_delimiter rfl rfl rfl rfl rfl fun _ => rfl) rfl rfl each

theorem finds_forms : ∀ fs : List Form, formsReadable fs = true →
    List.Forall₂ (Finds Bounded) ((formsText fs).map String.toList) (formsPieces fs)
  | [], _ => .nil
  | f :: fs, h => by
    simp only [formsReadable, Bool.and_eq_true] at h
    exact .cons (finds_form f h.1) (finds_forms fs h.2)

theorem finds_pairs : ∀ es : List Pair, pairsReadable es = true →
    List.Forall₂ (Finds Bounded) ((pairsText es).map String.toList) (pairsPieces es)
  | [], _ => .nil
  | .mk k f :: es, h => by
    simp only [pairsReadable, Bool.and_eq_true] at h
    have key := finds_atom h.1.1
    have value := finds_form f h.1.2
    have chars : (entryText k.text f.text).toList =
        k.text.toList ++ ([':', ' '] ++ f.text.toList) := by
      simp only [entryText, String.toList_append, List.append_assoc]
      rfl
    refine .cons ?_ (finds_pairs es h.2)
    rw [chars]
    refine key.append (finds_colon.append value fun _ _ => trivial) fun rest _ => ?_
    exact bounded_cons rfl rfl

end

/-! ## Parsing -/

theorem formsPieces_eq_map (fs : List Form) : formsPieces fs = fs.map Form.pieces := by
  induction fs with
  | nil => rfl
  | cons f fs ih => rw [formsPieces, ih, List.map_cons]

theorem formsLiterals_eq_map (fs : List Form) : formsLiterals fs = fs.map Form.literal := by
  induction fs with
  | nil => rfl
  | cons f fs ih => rw [formsLiterals, ih, List.map_cons]

/-- The entry of a dictionary literal, with its pieces. -/
def Pair.item : Pair → Item
  | .mk k f => ⟨(k.pieces, k.literal), (f.pieces, f.literal)⟩

theorem pairsPieces_eq_map (es : List Pair) :
    pairsPieces es = (es.map Pair.item).map Item.pieces := by
  induction es with
  | nil => rfl
  | cons e es ih =>
    obtain ⟨k, f⟩ := e
    rw [pairsPieces, ih, List.map_cons, List.map_cons]
    rfl

theorem pairsLiterals_eq_map (es : List Pair) :
    pairsLiterals es = (es.map Pair.item).map Item.entry := by
  induction es with
  | nil => rfl
  | cons e es ih =>
    obtain ⟨k, f⟩ := e
    rw [pairsLiterals, ih, List.map_cons, List.map_cons]
    rfl

theorem Atom.length_pieces_pos (s : Atom) : 0 < s.pieces.length := by
  unfold Atom.pieces
  split <;> exact Nat.succ_pos _

theorem Form.length_pieces_pos (f : Form) : 0 < f.pieces.length := by
  cases f with
  | atom s => exact s.length_pieces_pos
  | array | dict => exact Nat.succ_pos _

theorem reads_atom {s : Atom} (h : s.readable = true) {n : Nat} (fuel : s.pieces.length < n) :
    (rules n).ReadsAs s.pieces s.literal := by
  have atom : ∀ e : Expr, e.all Expr.shaped = true → e.all Expr.exact = true →
      e.enclosed.length < n → (rules n).ReadsAs e.enclosed e :=
    fun e shaped exact fuel => ((readable e shaped exact).part fuel).readsAs
  cases s with
  | none => exact atom (.none default) rfl rfl fuel
  | bool b => exact atom (.bool default b) rfl rfl fuel
  | string s => exact atom (.string default s) rfl rfl fuel
  | int i =>
    simp only [Atom.readable, Bool.and_eq_true, decide_eq_true_eq] at h
    have shaped : ∀ k : Nat, k ≤ maxInt → (Expr.int default (k : Int)).all Expr.shaped = true := by
      intro k bound
      simp only [Expr.all, Expr.shaped, Bool.and_eq_true, decide_eq_true_eq]
      omega
    cases i with
    | ofNat k =>
      refine atom (.int default k) (shaped k ?_) rfl fuel
      have bound : (k : Int) ≤ 9223372036854775807 := h.2
      simp only [maxInt]
      omega
    | negSucc k =>
      have bound : k + 1 ≤ maxInt := by
        simp only [Value.minInt] at h
        simp only [maxInt]
        omega
      obtain ⟨n, rfl⟩ := Nat.exists_eq_add_one_of_ne_zero (Nat.ne_zero_of_lt fuel)
      have inside : 1 < n := Nat.lt_of_succ_lt_succ fuel
      have part : (rules n).ReadsPart (.int default (k + 1 : Nat)) :=
        (readable _ (shaped _ bound) rfl).part inside
      refine ⟨⟨_, _, rfl, rfl⟩, ?_⟩
      intro q qs power
      exact reads_unary (s := default) part (Nat.zero_lt_of_lt inside) power

mutual

/-- The pieces of a form are parsed as its literal. -/
theorem reads_form : ∀ f : Form, f.readable = true → ∀ {n : Nat}, f.pieces.length < n →
    (rules n).ReadsAs f.pieces f.literal
  | .atom _, h, _, fuel => reads_atom h fuel
  | .array fs, h, n, fuel => by
    obtain ⟨n, rfl⟩ := Nat.exists_eq_add_one_of_ne_zero (Nat.ne_zero_of_lt fuel)
    simp only [Form.pieces, List.length_cons, List.length_append, List.length_nil,
      formsPieces_eq_map] at fuel
    have parts : ∀ i ∈ fs.map fun f => (f.pieces, f.literal), (rules n).ReadsAs i.1 i.2 := by
      intro i mem
      obtain ⟨f, listed, rfl⟩ := List.mem_map.mp mem
      have short := length_le_separated (List.mem_map_of_mem (f := Form.pieces) listed)
      exact reads_forms fs h f listed (by omega)
    have few : fs.length < n := by
      have some : ∀ ps ∈ fs.map Form.pieces, 0 < ps.length := by
        intro ps mem
        obtain ⟨f, -, rfl⟩ := List.mem_map.mp mem
        exact f.length_pieces_pos
      have := length_separated some
      rw [List.length_map] at this
      omega
    refine ⟨⟨_, _, rfl, rfl⟩, ?_⟩
    intro q qs power
    have pieces : (fs.map fun f => (f.pieces, f.literal)).map Prod.fst = formsPieces fs := by
      rw [formsPieces_eq_map, List.map_map]
      rfl
    have literals : (fs.map fun f => (f.pieces, f.literal)).map Prod.snd = formsLiterals fs := by
      rw [formsLiterals_eq_map, List.map_map]
      rfl
    rw [Form.pieces, List.cons_append, List.append_assoc, List.singleton_append, ← pieces]
    refine (reads_arrayOperand _ parts (by simpa using few)).bind ?_
    intro e same
    refine reads_extend_stop (Nat.le_of_eq power) (Nat.zero_lt_of_lt few) ?_
    rw [same, Form.literal, Expr.spanless, literals]
  | .dict es, h, n, fuel => by
    obtain ⟨n, rfl⟩ := Nat.exists_eq_add_one_of_ne_zero (Nat.ne_zero_of_lt fuel)
    simp only [Form.readable, Bool.and_eq_true] at h
    simp only [Form.pieces, List.length_cons, List.length_append, List.length_nil,
      pairsPieces_eq_map] at fuel
    have parts : ∀ i ∈ es.map Pair.item, i.Reads (rules n) := by
      intro i mem
      have short := length_le_separated (List.mem_map_of_mem (f := Item.pieces) mem)
      obtain ⟨⟨k, f⟩, listed, rfl⟩ := List.mem_map.mp mem
      simp only [Pair.item, Item.pieces, List.length_append, List.length_cons] at short
      obtain ⟨key, value⟩ := reads_pairs es h.2 k f listed
      exact ⟨reads_atom key (by omega), value (by omega)⟩
    have few : es.length < n := by
      have some : ∀ ps ∈ (es.map Pair.item).map Item.pieces, 0 < ps.length := by
        intro ps mem
        obtain ⟨i, -, rfl⟩ := List.mem_map.mp mem
        rw [Item.pieces, List.length_append, List.length_cons]
        omega
      have := length_separated some
      rw [List.length_map, List.length_map] at this
      omega
    refine ⟨⟨_, _, rfl, rfl⟩, ?_⟩
    intro q qs power
    rw [Form.pieces, List.cons_append, List.append_assoc, List.singleton_append,
      pairsPieces_eq_map]
    refine (reads_dictOperand _ parts (by simpa using few)).bind ?_
    intro e same
    refine reads_extend_stop (Nat.le_of_eq power) (Nat.zero_lt_of_lt few) ?_
    rw [same, Form.literal, Expr.spanless, pairsLiterals_eq_map]

theorem reads_forms : ∀ fs : List Form, formsReadable fs = true → ∀ f ∈ fs, ∀ {n : Nat},
    f.pieces.length < n → (rules n).ReadsAs f.pieces f.literal
  | [], _, _, mem => absurd mem List.not_mem_nil
  | g :: fs, h, f, mem => by
    simp only [formsReadable, Bool.and_eq_true] at h
    rcases List.mem_cons.mp mem with same | later
    · rw [same]
      exact reads_form g h.1
    · exact reads_forms fs h.2 f later

theorem reads_pairs : ∀ es : List Pair, pairsReadable es = true → ∀ k f, .mk k f ∈ es →
    k.readable = true ∧ ∀ {n : Nat}, f.pieces.length < n → (rules n).ReadsAs f.pieces f.literal
  | [], _, _, _, mem => absurd mem List.not_mem_nil
  | .mk k₁ f₁ :: es, h, k, f, mem => by
    simp only [pairsReadable, Bool.and_eq_true] at h
    rcases List.mem_cons.mp mem with same | later
    · cases same
      exact ⟨h.1.1, reads_form f₁ h.1.2⟩
    · exact reads_pairs es h.2 k f later

end

/-! ## The program -/

/-- The text that assigns a display form to `x`. -/
def assignmentOf (text : String) : String := "x ← " ++ text

theorem scan_assignmentOf {f : Form} (h : f.readable = true) (file : String) :
    ((scan (assignmentOf f.text) file).tokens.map Token.piece =
      .name "x" :: .arrow :: (f.pieces ++ [Piece.eof])) ∧
    (scan (assignmentOf f.text) file).failure = none := by
  have name : Finds Bounded ['x'] [.name "x"] := finds_word (s := "x") rfl rfl rfl rfl
  have arrow : Finds Anything ['←'] [.arrow] :=
    finds_sign (s := "←") rfl rfl rfl rfl rfl fun rest _ => symbol_eq_single (fun _ => rfl) rest
  have found : Finds Bounded (['x'] ++ ([' '] ++ (['←'] ++ ([' '] ++ f.text.toList))))
      ([Piece.name "x"] ++ ([] ++ ([Piece.arrow] ++ ([] ++ f.pieces)))) := by
    refine name.append (finds_blank.append (arrow.append (finds_blank.append (finds_form f h) ?_)
      ?_) ?_) ?_
    · exact fun _ _ => trivial
    · exact fun _ _ => trivial
    · exact fun _ _ => trivial
    · exact fun rest _ => bounded_cons rfl rfl
  have chars : (assignmentOf f.text).toList =
      ['x'] ++ ([' '] ++ (['←'] ++ ([' '] ++ f.text.toList))) := String.toList_append
  obtain ⟨p, ts, pieces, tokens, failure⟩ :=
    found (assignmentOf f.text) file .start [] fun _ first => nomatch first
  rw [scan, chars, ← List.append_nil (_ ++ _), tokens, failure, scanFrom]
  refine ⟨?_, rfl⟩
  rw [List.map_append, pieces]
  rfl

/-- A block that assigns an expression of this form to `x`. -/
def AssignsX (f : Form) (b : Block) : Prop :=
  ∃ s s' e, b.body = [.assign ⟨s, ⟨s', "x", []⟩, e, false⟩] ∧ e.spanless = f.literal.spanless

theorem assignsX_of_spanless {s s' : Span} {f : Form} {stmt : Stmt}
    (same : stmt.spanless = (Stmt.assign ⟨s, ⟨s', "x", []⟩, f.literal, false⟩).spanless)
    (span : Span) : AssignsX f (.mk span [stmt]) := by
  cases stmt with
  | assign a =>
    obtain ⟨s₁, ⟨s₂, name, steps⟩, value, constant⟩ := a
    simp only [Stmt.spanless, Assignment.spanless, Target.spanless, Stmt.assign.injEq,
      Assignment.mk.injEq, Target.mk.injEq, true_and] at same
    obtain ⟨⟨rfl, sameSteps⟩, sameValue, rfl⟩ := same
    have none : steps = [] := by
      rw [← List.isEmpty_iff, ← isEmpty_spanless, sameSteps]
      rfl
    subst none
    exact ⟨s₁, s₂, value, rfl, sameValue⟩
  | branch b =>
    obtain ⟨s, c, t, o⟩ := b
    simp [Stmt.spanless] at same
  | subroutine d =>
    obtain ⟨s, n, ps, b⟩ := d
    simp [Stmt.spanless] at same
  | _ => simp [Stmt.spanless] at same

theorem reads_wholeProgram {f : Form} (h : f.readable = true) {n : Nat}
    (fuel : f.pieces.length + 2 < n) :
    Reads (wholeProgram n) (.name "x" :: .arrow :: (f.pieces ++ [Piece.eof])) [.eof] (AssignsX f) := by
  obtain ⟨n, rfl⟩ := Nat.exists_eq_add_one_of_ne_zero (Nat.ne_zero_of_lt fuel)
  obtain ⟨n, rfl⟩ := Nat.exists_eq_add_one_of_ne_zero (n := n) (by omega)
  have value : (rules (n + 1)).ReadsAs f.pieces f.literal := reads_form f h (by omega)
  have assignment : Reads (statement (rules (n + 1)) n)
      (.name "x" :: (chainPieces [] ++ .arrow :: (f.pieces ++ [Piece.eof]))) [.eof] fun stmt =>
        stmt.spanless = (Stmt.assign ⟨default, ⟨default, "x", []⟩, f.literal, false⟩).spanless := by
    refine reads_assignment (fun _ _ mem => nomatch mem) value (by decide) ?_
    rw [List.length_nil]
    omega
  have body : Reads (statements (rules (n + 1)) [] (n + 1))
      (.name "x" :: .arrow :: (f.pieces ++ [Piece.eof])) [.eof] fun body => ∃ stmt, body = [stmt] ∧
        stmt.spanless =
          (Stmt.assign ⟨default, ⟨default, "x", []⟩, f.literal, false⟩).spanless := by
    refine .skip (noBreak_cons (by decide)) (reads_atStop.bind ?_)
    rintro _ rfl
    refine assignment.bind ?_
    intro stmt same
    refine .next_else (by decide) (reads_atStop.bind ?_)
    rintro _ rfl
    exact .pure ⟨stmt, rfl, same⟩
  have block : Reads ((rules (n + 2)).block [])
      (.name "x" :: .arrow :: (f.pieces ++ [Piece.eof])) [.eof] (AssignsX f) := by
    refine reads_peek.bind fun t _ => body.bind ?_
    rintro _ ⟨stmt, rfl, same⟩
    exact .spanFrom fun s => .pure (assignsX_of_spanless same s)
  refine block.bind ?_
  intro b assigns
  exact .next_then rfl (.pure assigns)

/-- The assignment of a display form to `x` is a program that does just that. -/
theorem parse_assignmentOf {f : Form} (h : f.readable = true) (file : String) :
    ∃ b, parse (assignmentOf f.text) file = .ok b ∧ AssignsX f b := by
  obtain ⟨pieces, scanned⟩ := scan_assignmentOf h file
  have count := congrArg List.length pieces
  simp only [List.length_map, List.length_cons, List.length_append, List.length_nil] at count
  have fuel : f.pieces.length + 2 < depthBound (scan (assignmentOf f.text) file).tokens := by
    rw [depthBound]
    omega
  obtain ⟨b, c, run, -, assigns⟩ := reads_wholeProgram h fuel
    (endOf (scan (assignmentOf f.text) file).tokens)
    ⟨none, (scan (assignmentOf f.text) file).tokens⟩ pieces
  refine ⟨b, ?_, assigns⟩
  rw [parse]
  simp only [scanned, parseTokens, program, run]

end Pseudocode
