import Pseudocode.Builtin.Convert
import Pseudocode.Proofs.Ownership.Store
import Pseudocode.Value.Plain
/-
# `Proofs.Ownership.Operation` — operators and conversions keep the heap sound

`HeapOp.Sound n h x V` says of an operation on a heap that it keeps it sound, takes
nothing away from it, and that its result satisfies `V`.  Operators and
conversions make new containers of copies; none of them stores anything.
-/
namespace Pseudocode

/-! ## Making containers -/

/-- The values refer to what exists. -/
def AllWithin (e : Extent) (vs : List Value) : Prop := ∀ v ∈ vs, v.Within e

theorem AllWithin.mono {e e' : Extent} (he : e ≤ e') {vs : List Value} (h : AllWithin e vs) :
    AllWithin e' vs := fun v hv => (h v hv).mono he

namespace Heap

variable {α β : Type} {n : Nat} {h : Heap} {s : StateM Heap α} {V : Extent → α → Prop}
  {U : Extent → β → Prop}

/-- The action keeps a sound heap sound, and its result satisfies `V`. -/
def Makes (n : Nat) (h : Heap) (s : StateM Heap α) (V : Extent → α → Prop) : Prop :=
  h.Sound n → h.extent n ≤ (s.run h).2.extent n ∧ (s.run h).2.Sound n ∧
    V ((s.run h).2.extent n) (s.run h).1

theorem Makes.pure {a : α} (ha : V (h.extent n) a) : Makes n h (pure a) V :=
  fun hs => ⟨Extent.le_refl _, hs, ha⟩

theorem Makes.bind {f : α → StateM Heap β} (hx : Makes n h s V)
    (hf : ∀ a h', h.Sound n → h.extent n ≤ h'.extent n → V (h'.extent n) a → Makes n h' (f a) U) :
    Makes n h (s >>= f) U := by
  intro hs
  obtain ⟨hle, hs', hV⟩ := hx hs
  obtain ⟨hle', hs'', hU⟩ := hf _ _ hs hle hV hs'
  exact ⟨Extent.le_trans hle hle', hs'', hU⟩

theorem Makes.get_bind {f : Heap → StateM Heap β} (hf : Makes n h (f h) U) :
    Makes n h ((get : StateM Heap Heap) >>= f) U := hf

theorem Makes.newArray {vs : Array Value} (hv : AllWithin (h.extent n) vs.toList) :
    Makes n h (modifyGet (Heap.newArray vs)) fun e v => v.Within e := by
  have g := Grows.newArray h vs
  exact fun hs => ⟨extent_le g.arrays g.dicts n, hs.newArray fun v hmem => hv v (by simpa using hmem),
    ((h.adds_newArray vs).isIn _).mpr (.inr rfl)⟩

theorem Makes.newDict {d : Dictionary} (hd : d.All (Value.Within (h.extent n))) :
    Makes n h (modifyGet (Heap.newDict d)) fun e v => v.Within e := by
  have g := Grows.newDict h d
  exact fun hs => ⟨extent_le g.arrays g.dicts n, hs.newDict hd,
    ((h.adds_newDict d).isIn _).mpr (.inr rfl)⟩

theorem Makes.copy {v : Value} (hv : v.Within (h.extent n)) :
    Makes n h (Heap.copy v) fun e v => v.Within e := by
  intro hs
  have k := hs.copy hv
  exact ⟨extent_le k.grows.arrays k.grows.dicts n, hs.copied k, k.within _ List.mem_cons_self⟩

theorem Makes.copyAll {vs : Array Value} (hv : AllWithin (h.extent n) vs.toList) :
    Makes n h (Heap.copyAll vs) fun e us => AllWithin e us.toList := by
  intro hs
  have k := hs.copies hv
  have hrun : (Heap.copyAll vs).run h =
      (((vs.toList.mapM Heap.copy).run h).1.toArray, ((vs.toList.mapM Heap.copy).run h).2) := by
    rw [Heap.copyAll, Array.mapM_eq_mapM_toList]
    rfl
  rw [hrun]
  exact ⟨extent_le k.grows.arrays k.grows.dicts n, hs.copied k, fun v hmem => k.within v hmem⟩

/-- Actions for the elements of a list, in order. -/
theorem Makes.mapM {κ : Type} {f : κ → StateM Heap α} (hV : ∀ e e' a, e ≤ e' → V e a → V e' a) :
    ∀ (ks : List κ) (h : Heap),
      (∀ k ∈ ks, ∀ h', h.extent n ≤ h'.extent n → Makes n h' (f k) V) →
      Makes n h (ks.mapM f) fun e as => ∀ a ∈ as, V e a
  | [], h, _ => .pure fun _ ha => nomatch ha
  | k :: ks, h, hf => by
      rw [List.mapM_cons]
      refine (hf k List.mem_cons_self h (Extent.le_refl _)).bind fun a h₁ _ h₁le ha => ?_
      have hrest := mapM hV ks h₁ fun j hj h' hle =>
        hf j (List.mem_cons_of_mem k hj) h' (Extent.le_trans h₁le hle)
      refine hrest.bind fun as h₂ _ hle has => .pure ?_
      intro b hb
      rcases List.mem_cons.mp hb with rfl | hb
      · exact hV _ _ _ hle ha
      · exact has b hb

end Heap

namespace HeapOp

variable {α β : Type} {n : Nat} {h h' : Heap} {x : HeapOp α}

/-! ## Running operations -/

theorem run_bind_ok {a : α} (hx : x.run h = (.ok a, h')) (f : α → HeapOp β) :
    (x >>= f).run h = (f a).run h' := by
  change (StateT.bind x.run (ExceptT.bindCont f)) h = _
  simp only [StateT.bind, hx]
  rfl

theorem run_bind_error {t : Trouble} (hx : x.run h = (.error t, h')) (f : α → HeapOp β) :
    (x >>= f).run h = (.error t, h') := by
  change (StateT.bind x.run (ExceptT.bindCont f)) h = _
  simp only [StateT.bind, hx]
  rfl

theorem run_get_bind (f : Heap → HeapOp β) : ((get : HeapOp Heap) >>= f).run h = (f h).run h := rfl

theorem run_lift (r : Except Trouble α) : (liftM r : HeapOp α).run h = (r, h) := by
  cases r <;> rfl

/-! ## Sound operations -/

/-- The operation keeps a sound heap sound, and its result satisfies `V`. -/
def Sound (n : Nat) (h : Heap) (x : HeapOp α) (V : Extent → α → Prop) : Prop :=
  h.Sound n → h.extent n ≤ (x.run h).2.extent n ∧ (x.run h).2.Sound n ∧
    ∀ a, (x.run h).1 = .ok a → V ((x.run h).2.extent n) a

variable {V : Extent → α → Prop} {U : Extent → β → Prop}

theorem Sound.pure {a : α} (ha : V (h.extent n) a) : Sound n h (pure a) V :=
  fun hs => ⟨Extent.le_refl _, hs, fun _ hb => by cases hb; exact ha⟩

theorem Sound.fail {t : Trouble} : Sound n h (throw t : HeapOp α) V :=
  fun hs => ⟨Extent.le_refl _, hs, fun _ hb => by cases hb⟩

theorem Sound.bind {f : α → HeapOp β} (hx : Sound n h x V)
    (hf : ∀ a h', h.Sound n → h.extent n ≤ h'.extent n → V (h'.extent n) a → Sound n h' (f a) U) :
    Sound n h (x >>= f) U := by
  intro hs
  obtain ⟨hle, hs', hV⟩ := hx hs
  cases hrun : x.run h with
  | mk r h' =>
  rw [hrun] at hle hs' hV
  cases r with
  | error t =>
      rw [run_bind_error hrun]
      exact ⟨hle, hs', fun _ hb => by cases hb⟩
  | ok a =>
      rw [run_bind_ok hrun]
      obtain ⟨hle', hs'', hU⟩ := hf a h' hs hle (hV a rfl) hs'
      exact ⟨Extent.le_trans hle hle', hs'', hU⟩

/-- A sound heap may be assumed. -/
theorem Sound.assume (hx : h.Sound n → Sound n h x V) : Sound n h x V := fun hs => hx hs hs

theorem Sound.get_bind {f : Heap → HeapOp β} (hf : Sound n h (f h) U) :
    Sound n h ((get : HeapOp Heap) >>= f) U := hf

theorem Sound.lift {r : Except Trouble α} (hr : ∀ a, r = .ok a → V (h.extent n) a) :
    Sound n h (liftM r : HeapOp α) V := by
  intro hs
  rw [run_lift]
  exact ⟨Extent.le_refl _, hs, hr⟩

theorem Sound.ofState {s : StateM Heap α} (hs : h.Makes n s V) :
    Sound n h (HeapOp.ofState s) V :=
  fun hh => ⟨(hs hh).1, (hs hh).2.1, fun _ ha => by cases ha; exact (hs hh).2.2⟩

end HeapOp

/-! ## Operators -/

section Operators

variable {n : Nat} {h : Heap}

theorem allWithin_foldl {e : Extent} : ∀ (uss : List (Array Value)) (vs : Array Value),
    AllWithin e vs.toList → (∀ us ∈ uss, AllWithin e us.toList) →
      AllWithin e (uss.foldl (· ++ ·) vs).toList
  | [], _, hv, _ => hv
  | us :: uss, vs, hv, hu => by
      refine allWithin_foldl uss (vs ++ us) (fun v hmem => ?_)
        fun us' h' => hu us' (List.mem_cons_of_mem us h')
      rw [Array.toList_append, List.mem_append] at hmem
      exact hmem.elim (hv v) (hu us List.mem_cons_self v)

theorem sound_repeatArray (hc : h.Closed (h.extent n)) (r : ArrayRef) (k : Int) :
    HeapOp.Sound n h (repeatArray r k) fun e v => v.Within e := by
  have harray : AllWithin (h.extent n) (h.array r).toList := fun v hv =>
    hc.array r v (by simpa using hv)
  refine .get_bind ((HeapOp.Sound.lift (V := fun _ _ => True) fun _ _ => trivial).bind
    fun count h₁ _ hle _ => .ofState ?_)
  have hcopies := Heap.Makes.mapM (n := n) (V := fun e (us : Array Value) => AllWithin e us.toList)
    (fun _ _ _ he hu => hu.mono he) (List.replicate count (h.array r)) h₁ fun us hus h' hle' => by
      rw [List.eq_of_mem_replicate hus]
      exact .copyAll (harray.mono (Extent.le_trans hle hle'))
  refine hcopies.bind fun uss h₂ _ _ huss => .newArray ?_
  exact allWithin_foldl uss #[] (fun _ hv => by simp at hv) huss

theorem sound_joinArrays (hc : h.Closed (h.extent n)) (a b : ArrayRef) :
    HeapOp.Sound n h (joinArrays a b) fun e v => v.Within e := by
  have harray : ∀ r, AllWithin (h.extent n) (h.array r).toList := fun r v hv =>
    hc.array r v (by simpa using hv)
  refine .ofState (.get_bind ((Heap.Makes.copyAll (harray a)).bind fun us h₁ _ hle hus => ?_))
  refine (Heap.Makes.copyAll ((harray b).mono hle)).bind fun us' h₂ _ hle' hus' => .newArray ?_
  intro v hmem
  rw [Array.toList_append, List.mem_append] at hmem
  exact hmem.elim (fun hv => (hus v hv).mono hle') (hus' v)

/-- The value is no container and no builtin function. -/
def Value.Plain : Value → Prop
  | .array _ | .dict _ | .builtin _ => False
  | _ => True

theorem Value.Plain.within {e : Extent} {v : Value} (hv : v.Plain) : v.Within e := by
  cases v <;> trivial

theorem Value.Plain.container? {v : Value} (hv : v.Plain) : v.container? = Option.none := by
  cases v <;> first | rfl | cases hv

theorem plain_wordResult {symbol : String} {r : Option Int64} {v : Value}
    (hv : wordResult symbol r = .ok v) : v.Plain := by
  cases r with
  | some n => cases hv; trivial
  | none => cases hv

theorem plain_realPower {x y : Float} {v : Value} (hv : realPower x y = .ok v) : v.Plain := by
  simp only [realPower] at hv
  split at hv
  · cases hv
  · split at hv <;> cases hv
    trivial

theorem plain_intArith {op : BinaryOp} {l r : Int64} {v : Value} (hv : intArith op l r = .ok v) :
    v.Plain := by
  cases op with
  | add => exact plain_wordResult hv
  | sub => exact plain_wordResult hv
  | mul => exact plain_wordResult hv
  | div =>
      simp only [intArith] at hv
      split at hv <;> cases hv
      trivial
  | intDiv =>
      simp only [intArith] at hv
      split at hv
      · cases hv
      · exact plain_wordResult hv
  | mod =>
      simp only [intArith] at hv
      split at hv <;> cases hv
      trivial
  | pow =>
      simp only [intArith] at hv
      split at hv
      · exact plain_wordResult hv
      · exact plain_realPower hv
  | _ => cases hv

theorem plain_realArith {op : BinaryOp} {x y : Float} {v : Value} (hv : realArith op x y = .ok v) :
    v.Plain := by
  cases op with
  | add => cases hv; trivial
  | sub => cases hv; trivial
  | mul => cases hv; trivial
  | div =>
      simp only [realArith] at hv
      split at hv <;> cases hv
      trivial
  | intDiv =>
      simp only [realArith] at hv
      split at hv <;> cases hv
      trivial
  | mod =>
      simp only [realArith] at hv
      split at hv <;> cases hv
      trivial
  | pow => exact plain_realPower hv
  | _ => cases hv

theorem plain_repeatString {s : String} {k : Int} {v : Value} (hv : repeatString s k = .ok v) :
    v.Plain := by
  simp only [repeatString] at hv
  cases hcount : repeatCount "String" s.utf8ByteSize k with
  | error t => rw [hcount] at hv; cases hv
  | ok count =>
      rw [hcount] at hv
      cases hv
      trivial

theorem sound_arithmetic (hc : h.Closed (h.extent n)) (op : BinaryOp) (l r : Value) :
    HeapOp.Sound n h (arithmetic op l r) fun e v => v.Within e := by
  simp only [arithmetic]
  split
  · exact .pure trivial
  · exact .lift fun _ hv => (plain_repeatString hv).within
  · exact sound_joinArrays hc _ _
  · exact sound_repeatArray hc _ _
  · exact .lift fun _ hv => (plain_repeatString hv).within
  · exact sound_repeatArray hc _ _
  · split
    · exact .lift fun _ hv => (plain_intArith hv).within
    · split
      · exact .lift fun _ hv => (plain_realArith hv).within
      · exact .get_bind .fail

theorem plain_compareValues {op : BinaryOp} {l r v : Value}
    (hv : compareValues h op l r = .ok v) : v.Plain := by
  simp only [compareValues] at hv
  split at hv <;> cases hv
  trivial

theorem sound_binaryOp (hc : h.Closed (h.extent n)) (op : BinaryOp) (l r : Value) :
    HeapOp.Sound n h (binaryOp op l r) fun e v => v.Within e := by
  simp only [binaryOp]
  split
  · exact .get_bind (.pure trivial)
  · exact .get_bind (.pure trivial)
  · exact .get_bind (.lift fun _ hv => (plain_compareValues hv).within)
  · exact .get_bind (.lift fun _ hv => (plain_compareValues hv).within)
  · exact .get_bind (.lift fun _ hv => (plain_compareValues hv).within)
  · exact .get_bind (.lift fun _ hv => (plain_compareValues hv).within)
  · exact sound_arithmetic hc _ _ _

theorem plain_unaryOp {op : UnaryOp} {u v : Value} (hv : unaryOp h op u = .ok v) : v.Plain := by
  simp only [unaryOp] at hv
  split at hv
  · cases hv; trivial
  · cases hv; trivial
  · cases hv; trivial
  · split at hv
    · exact plain_wordResult hv
    · cases hv

end Operators

/-! ## Conversions -/

section Conversions

variable {n : Nat} {h : Heap}

theorem allWithin_characters (e : Extent) (s : String) : AllWithin e (Builtins.characters s) := by
  intro v hv
  obtain ⟨c, -, rfl⟩ := List.mem_map.mp hv
  trivial

theorem sound_toArray (hc : h.Closed (h.extent n)) {v : Value} (hv : v.Within (h.extent n)) :
    HeapOp.Sound n h (Builtins.toArray v) fun e v => v.Within e := by
  cases v with
  | array r => exact .ofState (.copy hv)
  | dict r =>
      refine .get_bind (.ofState (.newArray fun k hk => hc.keys r k ?_))
      simpa using hk
  | string s => exact .ofState (.newArray (allWithin_characters _ s))
  | _ => exact .get_bind .fail

/-- The key and the value of a pair are within the heap. -/
theorem within_pair? {e : Extent} (hc : h.Closed e) {v k x : Value}
    (hp : Builtins.pair? h v = some (k, x)) : x.Within e := by
  cases v with
  | array r =>
      simp only [Builtins.pair?] at hp
      split at hp
      next hlist =>
        cases hp
        exact hc.array r x (by rw [← Array.mem_toList_iff, hlist]; simp)
      next => cases hp
  | _ => cases hp

theorem sound_addPairs : ∀ (es : List Value) (i : Nat) (d : Dictionary) (h : Heap),
    d.All (Value.Within (h.extent n)) →
      HeapOp.Sound n h (Builtins.addPairs i d es) fun e d => d.All (Value.Within e)
  | [], _, _, _, hd => .pure hd
  | e :: es, i, d, h, hd => by
      simp only [Builtins.addPairs]
      refine .assume fun hs => .get_bind ?_
      split
      · exact .fail
      next k v hp =>
        refine (HeapOp.Sound.ofState (.copy (within_pair? hs.closed hp))).bind
          fun u h' _ hle hu => ?_
        split
        next d' hins =>
          exact sound_addPairs es (i + 1) d' h'
            ((hd.mono fun _ hv => hv.mono hle).insert? hu hins)
        next => exact .get_bind .fail

theorem sound_toDict {v : Value} (hv : v.Within (h.extent n)) :
    HeapOp.Sound n h (Builtins.toDict v) fun e v => v.Within e := by
  cases v with
  | dict r => exact .ofState (.copy hv)
  | array r =>
      exact .get_bind ((sound_addPairs _ 0 .empty h .empty).bind fun d h' _ _ hd =>
        .ofState (.newDict hd))
  | _ => exact .get_bind .fail

/-! ## Plain data -/

mutual

theorem makes_ofPlain : ∀ (x : Datum) (h : Heap), h.Makes n (Heap.ofPlain x) fun e v => v.Within e
  | .null, _ => .pure trivial
  | .bool _, _ => .pure trivial
  | .int _, _ => .pure trivial
  | .real _, _ => .pure trivial
  | .text _, _ => .pure trivial
  | .list xs, h => by
      rw [Heap.ofPlain]
      exact (makes_ofPlainItems xs h).bind fun vs h' _ _ hvs => .newArray hvs
  | .object fs, h => by
      rw [Heap.ofPlain]
      exact (makes_ofPlainFields fs .empty h .empty).bind fun d h' _ _ hd => .newDict hd

theorem makes_ofPlainItems : ∀ (xs : List Datum) (h : Heap),
    h.Makes n (Heap.ofPlainItems xs) AllWithin
  | [], _ => .pure fun _ hv => nomatch hv
  | x :: xs, h => by
      rw [Heap.ofPlainItems]
      refine (makes_ofPlain x h).bind fun v h₁ _ _ hv => ?_
      refine (makes_ofPlainItems xs h₁).bind fun vs h₂ _ hle hvs => .pure ?_
      exact List.forall_mem_cons.mpr ⟨hv.mono hle, hvs⟩

theorem makes_ofPlainFields : ∀ (fs : List (String × Datum)) (d : Dictionary) (h : Heap),
    d.All (Value.Within (h.extent n)) →
      h.Makes n (Heap.ofPlainFields d fs) fun e d => d.All (Value.Within e)
  | [], _, _, hd => .pure hd
  | (k, x) :: fs, d, h, hd => by
      rw [Heap.ofPlainFields]
      refine (makes_ofPlain x h).bind fun v h₁ _ hle hv => ?_
      exact makes_ofPlainFields fs _ h₁ ((hd.mono fun _ hv => hv.mono hle).insert hv)

end

end Conversions

end Pseudocode
