import Pseudocode.Proofs.Hosting.Exchange
import Pseudocode.Proofs.Strings.Quoted
/-
# `Proofs.Hosting.Order` — a map of the embedding program has no order

The entries of a map from values are boxed in whatever order they are met, each in new containers
of its own, and then set in the order in which their keys are shown.  No two keys are shown alike
(`Atom.text_inj`), so that this order is the same however the entries were met.

Boxing the same data twice, in heaps that extend a third one, gives values with the same structure
(`Twins`): what both name in the third heap is the same, and what is new corresponds part by part,
dictionaries with the same keys in the same order and with the same index (`steady_box`).  For a
map this is so whatever the order (`box_ofAtoms_perm`).
-/
namespace Pseudocode

/-- Lists that correspond stay so when they are sorted by orders that correspond. -/
theorem forall₂_mergeSort {α β : Type} {R : α → β → Prop} {le : α → α → Bool} {le' : β → β → Bool}
    {as : List α} {bs : List β} (all : List.Forall₂ R as bs)
    (agree : ∀ a b c d, R a b → R c d → le a c = le' b d) :
    List.Forall₂ R (as.mergeSort le) (bs.mergeSort le') := by
  have pairs : ∀ z ∈ as.zip bs, R z.1 z.2 := fun z mem => List.forall₂_zip all mem
  have lefts : (as.zip bs).map Prod.fst = as := List.map_fst_zip (Nat.le_of_eq all.length_eq)
  have rights : (as.zip bs).map Prod.snd = bs :=
    List.map_snd_zip (Nat.le_of_eq all.length_eq.symm)
  have sorted : as.mergeSort le = ((as.zip bs).mergeSort fun z w => le z.1 w.1).map Prod.fst := by
    rw [List.map_mergeSort (s := le) fun z _ w _ => rfl, lefts]
  have sorted' : bs.mergeSort le' = ((as.zip bs).mergeSort fun z w => le z.1 w.1).map Prod.snd := by
    rw [List.map_mergeSort fun z hz w hw => agree _ _ _ _ (pairs z hz) (pairs w hw), rights]
  rw [sorted, sorted', List.forall₂_map_left_iff, List.forall₂_map_right_iff, List.forall₂_same]
  exact fun z mem => pairs z (List.mem_mergeSort.mp mem)

/-- And when one place in both is set to what corresponds. -/
theorem forall₂_set {α β : Type} {R : α → β → Prop} {as : List α} {bs : List β} {a : α} {b : β}
    (all : List.Forall₂ R as bs) (related : R a b) (i : Nat) :
    List.Forall₂ R (as.set i a) (bs.set i b) := by
  induction all generalizing i with
  | nil => exact .nil
  | cons here there ih =>
    cases i with
    | zero => exact .cons related there
    | succ i => exact .cons here (ih i)

/-- Lists that correspond to a third one correspond to each other. -/
theorem forall₂_join {α β γ : Type} {R : α → β → Prop} {S : α → γ → Prop} {T : β → γ → Prop}
    {as : List α} {bs : List β} {cs : List γ} (left : List.Forall₂ R as bs)
    (right : List.Forall₂ S as cs) (join : ∀ a ∈ as, ∀ b c, R a b → S a c → T b c) :
    List.Forall₂ T bs cs := by
  induction left generalizing cs with
  | nil =>
    cases right
    exact .nil
  | @cons a b as bs here there ih =>
    obtain _ | ⟨here', there'⟩ := right
    exact .cons (join a List.mem_cons_self _ _ here here')
      (ih there' fun x mem => join x (List.mem_cons_of_mem a mem))

theorem Boxing.of_bind_ok {α β : Type} {x : Boxing α} {f : α → Boxing β} {h l : Heap} {b : β}
    (run : (x >>= f) h = .ok (b, l)) : ∃ a g, x h = .ok (a, g) ∧ f a g = .ok (b, l) := by
  cases made : x h with
  | error e =>
    change (x h >>= fun p => f p.1 p.2) = .ok (b, l) at run
    rw [made] at run
    cases run
  | ok p =>
    obtain ⟨a, g⟩ := p
    rw [Boxing.bind_ok made] at run
    exact ⟨a, g, rfl, run⟩

namespace Heap

variable {h g g' l l' : Heap} {v v' : Value}

/-! ## The same structure twice -/

/-- The container of the value is in the heap, if it has one. -/
def Has (h : Heap) (v : Value) : Prop := ∀ c, v.container? = some c → c.In h

theorem has_leaf (hv : v.container? = none) : h.Has v := fun c some => by
  rw [hv] at some
  cases some

/-- Two heaps extend a third one by values of the same structure: what is named in the third
heap is the same, and what is new corresponds part by part. -/
inductive Twins (h g g' : Heap) : Value → Value → Prop
  | same {v : Value} (inside : h.Has v) : Twins h g g' v v
  | array {r r' : ArrayRef} (new : ¬ (Container.array r).In h) (new' : ¬ (Container.array r').In h)
      (inside : (Container.array r).In g) (inside' : (Container.array r').In g')
      (even : (g.array r).size = (g'.array r').size)
      (each : ∀ (i : Nat) v v', (g.array r)[i]? = some v → (g'.array r')[i]? = some v' →
        Twins h g g' v v') : Twins h g g' (.array r) (.array r')
  | dict {d d' : DictRef} (new : ¬ (Container.dict d).In h) (new' : ¬ (Container.dict d').In h)
      (inside : (Container.dict d).In g) (inside' : (Container.dict d').In g')
      (slots : (g.dict d).slots = (g'.dict d').slots)
      (index : (g.dict d).index = (g'.dict d').index)
      (even : (g.dict d).values.size = (g'.dict d').values.size)
      (each : ∀ (i : Nat) v v', (g.dict d).values[i]? = some v → (g'.dict d').values[i]? = some v' →
        Twins h g g' v v') : Twins h g g' (.dict d) (.dict d')

/-- What corresponds still does when the heaps grow. -/
theorem Twins.mono (twins : h.Twins g g' v v') (k : g.Appends l) (k' : g'.Appends l') :
    h.Twins l l' v v' := by
  induction twins with
  | same inside => exact .same inside
  | array new new' inside inside' even each ih =>
    have same := (k.same _ inside).array
    have same' := (k'.same _ inside').array
    refine .array new new' (k.isIn inside) (k'.isIn inside') (by rw [same, same', even]) ?_
    rw [same, same']
    exact ih
  | dict new new' inside inside' slots index even each ih =>
    have same := (k.same _ inside).dict
    have same' := (k'.same _ inside').dict
    refine .dict new new' (k.isIn inside) (k'.isIn inside') ?_ ?_ ?_ ?_ <;> rw [same, same']
    exacts [slots, index, even, ih]

theorem even_of_forall₂ {α β : Type} {R : α → β → Prop} {as : Array α} {bs : Array β}
    (all : List.Forall₂ R as.toList bs.toList) : as.size = bs.size ∧
      ∀ (i : Nat) a b, as[i]? = some a → bs[i]? = some b → R a b := by
  refine ⟨all.length_eq, fun i a b ha hb => ?_⟩
  rw [← Array.getElem?_toList] at ha hb
  obtain ⟨a', there, related⟩ := exists_getElem?_left all hb
  obtain rfl := Option.some.inj (ha.symm.trans there)
  exact related

/-- The heap grows by an array at its end. -/
theorem not_in_of_appends_array (k : h.Appends g) : ¬ (Container.array ⟨g.arrays.size⟩).In h :=
  fun inside => Nat.lt_irrefl _ (k.isIn inside)

theorem not_in_of_appends_dict (k : h.Appends g) : ¬ (Container.dict ⟨g.dicts.size⟩).In h :=
  fun inside => Nat.lt_irrefl _ (k.isIn inside)

/-- Arrays of values that correspond. -/
theorem Twins.newArray (k : h.Appends g) (k' : h.Appends g') {vs vs' : List Value}
    (all : List.Forall₂ (h.Twins g g') vs vs') :
    h.Twins (g.newArray vs.toArray).2 (g'.newArray vs'.toArray).2 (g.newArray vs.toArray).1
      (g'.newArray vs'.toArray).1 := by
  have elements := array_newArray g vs.toArray
  have elements' := array_newArray g' vs'.toArray
  have grown : List.Forall₂ (h.Twins (g.newArray vs.toArray).2 (g'.newArray vs'.toArray).2)
      vs.toArray.toList vs'.toArray.toList :=
    all.imp fun v v' twins => twins.mono (.newArray g _) (.newArray g' _)
  obtain ⟨even, each⟩ := even_of_forall₂ grown
  refine .array (not_in_of_appends_array k) (not_in_of_appends_array k') ?_ ?_ ?_ ?_
  · exact Nat.lt_of_lt_of_eq (Nat.lt_succ_self _) (Array.size_push _).symm
  · exact Nat.lt_of_lt_of_eq (Nat.lt_succ_self _) (Array.size_push _).symm
  · rwa [elements, elements']
  · rwa [elements, elements']

end Heap

/-! ## Dictionaries side by side -/

/-- Dictionaries with the same keys and places, and values that correspond. -/
structure Dictionary.Beside (R : Value → Value → Prop) (d d' : Dictionary) : Prop where
  slots : d.slots = d'.slots
  index : d.index = d'.index
  values : List.Forall₂ R d.values.toList d'.values.toList

namespace Dictionary.Beside

variable {R : Value → Value → Prop} {d d' e : Dictionary} {key v v' : Value}

theorem empty : Beside R .empty .empty := ⟨rfl, rfl, .nil⟩

theorem push (b : Beside R d d') (key : Value) (related : R v v') :
    Beside R (d.push key v) (d'.push key v') where
  slots := congrArg (Slots.push · key) b.slots
  index := b.index
  values := by
    simp only [Dictionary.push, Array.toList_push]
    exact List.rel_append b.values (.cons related .nil)

/-- Setting a key leaves them side by side. -/
theorem insert (b : Beside R d d') (key : Value) (related : R v v') :
    Beside R (d.insert key v) (d'.insert key v') := by
  unfold Dictionary.insert
  cases key.keyForm with
  | unequal => exact b.push key related
  | unhashable => exact b
  | found k =>
    have known : d'.index[k]? = d.index[k]? := by rw [b.index]
    cases found : d.index[k]? with
    | none =>
      rw [found] at known
      have places : d.size = d'.size := congrArg Slots.size b.slots
      simp only [found, known]
      exact ⟨(b.push key related).slots, by rw [places, b.index], (b.push key related).values⟩
    | some i =>
      rw [found] at known
      simp only [found, known]
      refine ⟨b.slots, b.index, ?_⟩
      simp only [Array.toList_setIfInBounds]
      exact forall₂_set b.values related i

end Dictionary.Beside

/-! ## Boxing twice -/

namespace HostData

variable {h g g' l l' : Heap} {κ α β γ δ : Type}

/-- Whenever the first action succeeds, so does the second, with a related outcome. -/
def Alike (R : Heap → Heap → α → β → Prop) (x : Boxing α) (y : Boxing β) (g g' : Heap) : Prop :=
  ∀ a l, x g = .ok (a, l) →
    ∃ b l', y g' = .ok (b, l') ∧ g.Appends l ∧ g'.Appends l' ∧ R l l' a b

/-- What is done from both heaps that extend a third one has the same structure. -/
def Steady (h : Heap) (x : Boxing Value) : Prop :=
  ∀ g g', h.Appends g → h.Appends g' → Alike h.Twins x x g g'

theorem Alike.pure {R : Heap → Heap → α → β → Prop} {a : α} {b : β} (related : R g g' a b) :
    Alike R (Pure.pure a) (Pure.pure b) g g' := by
  rintro a l ⟨⟩
  exact ⟨b, g', rfl, .refl g, .refl g', related⟩

theorem Alike.bind {R : Heap → Heap → α → β → Prop} {S : Heap → Heap → γ → δ → Prop}
    {x : Boxing α} {y : Boxing β} {f : α → Boxing γ} {k : β → Boxing δ} (first : Alike R x y g g')
    (next : ∀ a b l l', g.Appends l → g'.Appends l' → R l l' a b → Alike S (f a) (k b) l l') :
    Alike S (x >>= f) (y >>= k) g g' := by
  intro c m run
  obtain ⟨a, l, ran, run⟩ := Boxing.of_bind_ok run
  obtain ⟨b, l', ran', grown, grown', related⟩ := first a l ran
  obtain ⟨d, m', run', more, more', last⟩ := next a b l l' grown grown' related c m run
  exact ⟨d, m', by rw [Boxing.bind_ok ran', run'], grown.trans more, grown'.trans more', last⟩

/-! ### Entries -/

/-- The value of the entry was made by its action, in a heap between. -/
def Made (h l : Heap) (e : κ × Boxing Value) (p : κ × Value) : Prop :=
  p.1 = e.1 ∧ ∃ g g₁, h.Appends g ∧ e.2 g = .ok (p.2, g₁) ∧ g₁.Appends l

/-- The entries of two maps have one key and values of the same structure. -/
def Match (h l l' : Heap) (p p' : κ × Value) : Prop := p.1 = p'.1 ∧ h.Twins l l' p.2 p'.2

/-- What one action made twice has the same structure. -/
theorem Made.twins {e : κ × Boxing Value} {p p' : κ × Value} (made : Made h l e p)
    (made' : Made h l' e p') (steady : Steady h e.2) : Match h l l' p p' := by
  obtain ⟨key, g, g₁, hg, run, grown⟩ := made
  obtain ⟨key', g', g₁', hg', run', grown'⟩ := made'
  obtain ⟨v', l₁, ran, -, -, twins⟩ := steady g g' hg hg' _ _ run
  rw [run'] at ran
  cases ran
  exact ⟨key.trans key'.symm, twins.mono grown grown'⟩

theorem made_perform : ∀ {t : List (κ × Boxing Value)} {g l : Heap} {ps : List (κ × Value)},
    (∀ e ∈ t, Steady h e.2) → h.Appends g → perform t g = .ok (ps, l) →
    g.Appends l ∧ List.Forall₂ (Made h l) t ps
  | [], g, _, _, _, _, run => by
    cases run
    exact ⟨.refl g, .nil⟩
  | (k, act) :: rest, g, l, ps, steady, hg, run => by
    obtain ⟨v, g₁, ran, run⟩ := Boxing.of_bind_ok run
    obtain ⟨vs, g₂, ran', run⟩ := Boxing.of_bind_ok run
    cases run
    obtain ⟨-, -, -, grown, -⟩ := steady _ List.mem_cons_self g g hg hg v g₁ ran
    obtain ⟨grown', made⟩ := made_perform (fun e mem => steady e (List.mem_cons_of_mem _ mem))
      (hg.trans grown) ran'
    exact ⟨grown.trans grown', .cons ⟨rfl, g, g₁, hg, ran, grown'⟩ made⟩

/-- What succeeded once succeeds in every order. -/
theorem exists_perform : ∀ {t : List (κ × Boxing Value)} {g : Heap}, (∀ e ∈ t, Steady h e.2) →
    (∀ e ∈ t, ∃ g p, h.Appends g ∧ e.2 g = .ok p) → h.Appends g → ∃ p, perform t g = .ok p
  | [], g, _, _, _ => ⟨([], g), rfl⟩
  | (k, act) :: rest, g, steady, each, hg => by
    obtain ⟨g₀, p, hg₀, ran⟩ := each _ List.mem_cons_self
    obtain ⟨v, g₁, run, -, grown, -⟩ := steady _ List.mem_cons_self g₀ g hg₀ hg p.1 p.2 ran
    obtain ⟨⟨vs, g₂⟩, run'⟩ := exists_perform (fun e mem => steady e (List.mem_cons_of_mem _ mem))
      (fun e mem => each e (List.mem_cons_of_mem _ mem)) (hg.trans grown)
    refine ⟨((k, v) :: vs, g₂), ?_⟩
    rw [perform, Boxing.bind_ok run, Boxing.bind_ok run']
    rfl

/-- What each succeeds alone succeeds one after the other. -/
theorem exists_made {t : List (κ × Boxing Value)} (steady : ∀ e ∈ t, Steady h e.2)
    (boxes : ∀ e ∈ t, ∃ p, e.2 h = .ok p) :
    ∃ ps l, perform t h = .ok (ps, l) ∧ h.Appends l ∧ List.Forall₂ (Made h l) t ps := by
  have each : ∀ e ∈ t, ∃ g p, h.Appends g ∧ e.2 g = .ok p :=
    fun e mem => (boxes e mem).elim fun p ran => ⟨h, p, .refl h, ran⟩
  obtain ⟨⟨ps, l⟩, run⟩ := exists_perform steady each (.refl h)
  exact ⟨ps, l, run, made_perform steady (.refl h) run⟩

/-! ### Dictionaries -/

theorem hashable_of_boxEntries : ∀ {es : List (Value × Value)} {d : Dictionary} {p : Value × Heap},
    boxEntries d es g = .ok p → ∀ e ∈ es, e.1.keyForm ≠ .unhashable
  | [], _, _, _, _, mem => absurd mem List.not_mem_nil
  | (k, v) :: rest, d, p, run, e, mem => by
    rw [boxEntries, Dictionary.insert?] at run
    split_ifs at run with form
    · cases run
    · rcases List.mem_cons.mp mem with rfl | mem
      · exact form
      · exact hashable_of_boxEntries run e mem

end HostData

/-- Dictionaries side by side, once they are in the heaps. -/
theorem Heap.Twins.newDict {h g g' : Heap} (k : h.Appends g) (k' : h.Appends g')
    {d d' : Dictionary} (beside : d.Beside (h.Twins g g') d') :
    h.Twins (g.newDict d).2 (g'.newDict d').2 (g.newDict d).1 (g'.newDict d').1 := by
  have made := dict_newDict g d
  have made' := dict_newDict g' d'
  have grown : List.Forall₂ (h.Twins (g.newDict d).2 (g'.newDict d').2)
      d.values.toList d'.values.toList :=
    beside.values.imp fun v v' twins => twins.mono (.newDict g _) (.newDict g' _)
  obtain ⟨even, each⟩ := even_of_forall₂ grown
  refine .dict (not_in_of_appends_dict k) (not_in_of_appends_dict k') ?_ ?_ ?_ ?_ ?_ ?_
  · exact Nat.lt_of_lt_of_eq (Nat.lt_succ_self _) (Array.size_push _).symm
  · exact Nat.lt_of_lt_of_eq (Nat.lt_succ_self _) (Array.size_push _).symm
  all_goals rw [made, made']
  exacts [beside.slots, beside.index, even, each]

namespace HostData

variable {h g g' l l' : Heap} {κ : Type}

/-- Entries that match make dictionaries of the same structure. -/
theorem alike_boxEntries (hg : h.Appends g) (hg' : h.Appends g') {es es' : List (Value × Value)}
    (all : List.Forall₂ (Match h g g') es es') : ∀ {d d' : Dictionary},
    d.Beside (h.Twins g g') d' → Alike h.Twins (boxEntries d es) (boxEntries d' es') g g' := by
  induction all with
  | nil =>
    intro d d' beside a l run
    have made : g.newDict d = (a, l) := Except.ok.inj run
    obtain ⟨rfl, rfl⟩ := Prod.mk.inj made.symm
    exact ⟨_, _, rfl, .newDict g d, .newDict g' d', .newDict hg hg' beside⟩
  | @cons e e' es es' here there ih =>
    obtain ⟨k, v⟩ := e
    obtain ⟨k', v'⟩ := e'
    obtain ⟨rfl, twins⟩ : k = k' ∧ h.Twins g g' v v' := here
    intro d d' beside a l run
    have form := hashable_of_boxEntries run (k, v) List.mem_cons_self
    rw [boxEntries, Dictionary.insert?, if_neg form] at run
    rw [boxEntries, Dictionary.insert?, if_neg form]
    exact ih (beside.insert k twins) a l run

/-! ### Maps -/

/-- An action table, performed in two orders. -/
theorem perform_again {t t' : List (κ × Boxing Value)} {ps : List (κ × Value)}
    (steady : ∀ e ∈ t, Steady h e.2) (perm : t.Perm t') (hg : h.Appends g) (hg' : h.Appends g')
    (run : perform t g = .ok (ps, l)) : ∃ ps' l', perform t' g' = .ok (ps', l') ∧ g.Appends l ∧
      g'.Appends l' ∧ List.Forall₂ (Made h l) t ps ∧ List.Forall₂ (Made h l') t' ps' := by
  obtain ⟨grown, made⟩ := made_perform steady hg run
  have steady' : ∀ e ∈ t', Steady h e.2 := fun e mem => steady e (perm.mem_iff.mpr mem)
  have each : ∀ e ∈ t', ∃ g p, h.Appends g ∧ e.2 g = .ok p := by
    intro e mem
    obtain ⟨p, -, -, g₀, g₁, hg₀, ran, -⟩ := exists_left_of_mem made.flip e (perm.mem_iff.mpr mem)
    exact ⟨g₀, _, hg₀, ran⟩
  obtain ⟨⟨ps', l'⟩, run'⟩ := exists_perform steady' each hg'
  obtain ⟨grown', made'⟩ := made_perform steady' hg' run'
  exact ⟨ps', l', run', grown, grown', made, made'⟩

/-- The actions of a map from values, each key once. -/
def keyTable (actions : List (Value × Boxing Value)) : List (Value × Boxing Value) :=
  actions.foldl (fun t e => setKey e.1 e.2 t) []

/-- The order of entries by how their keys are shown. -/
def byShown {α : Type} (shown : κ → String) (a b : κ × α) : Bool := decide (shown a.1 ≤ shown b.1)

theorem inShownOrder_eq {α : Type} (shown : κ → String) (es : List (κ × α)) :
    inShownOrder shown es = es.mergeSort (byShown shown) := by
  have sorted := List.map_mergeSort (f := fun e : κ × α => (shown e.1, e)) (r := byShown shown)
    (s := fun a b => decide (a.1 ≤ b.1)) (l := es) fun a _ b _ => rfl
  rw [inShownOrder, ← sorted, List.map_map]
  exact List.map_id _

section Shown

variable {α : Type} {shown : κ → String}

theorem byShown_trans {a b c : κ × α} (ab : byShown shown a b = true)
    (bc : byShown shown b c = true) : byShown shown a c = true :=
  decide_eq_true (String.le_trans (of_decide_eq_true ab) (of_decide_eq_true bc))

theorem byShown_total (a b : κ × α) : (byShown shown a b || byShown shown b a) = true := by
  rw [Bool.or_eq_true, byShown, byShown, decide_eq_true_eq, decide_eq_true_eq]
  exact String.le_total _ _

theorem byShown_of_eq {a b : κ × α} (alike : shown a.1 = shown b.1) : byShown shown a b = true :=
  decide_eq_true (alike ▸ String.le_refl (shown a.1))

/-- Where no two keys are shown alike there is one order. -/
theorem mergeSort_byShown_perm {es es' : List (κ × α)}
    (apart : (es.map fun e => shown e.1).Nodup) (perm : es.Perm es') :
    es.mergeSort (byShown shown) = es'.mergeSort (byShown shown) := by
  have sorted : ∀ fs : List (κ × α), (fs.mergeSort (byShown shown)).Pairwise
      fun e f => byShown shown e f = true :=
    List.pairwise_mergeSort (fun _ _ _ => byShown_trans) byShown_total
  refine List.Perm.eq_of_pairwise ?_ (sorted es) (sorted es')
    ((List.mergeSort_perm es _).trans (perm.trans (List.mergeSort_perm es' _).symm))
  intro e f he hf le ge
  have alike := String.le_antisymm (of_decide_eq_true le) (of_decide_eq_true ge)
  exact List.inj_on_of_nodup_map apart (List.mem_mergeSort.mp he)
    (perm.mem_iff.mpr (List.mem_mergeSort.mp hf)) alike

end Shown

/-- What is made of the entries of a map is used in the order in which their keys are shown. -/
theorem boxInOrder_eq {α : Type} {shown : Heap → κ → String}
    {build : List (κ × Value) → Boxing α} {actions : List (κ × Boxing Value)}
    {ps : List (κ × Value)} (run : perform actions g = .ok (ps, l)) :
    boxInOrder shown build actions g = build (ps.mergeSort (byShown (shown l))) l := by
  rw [← inShownOrder_eq]
  change (perform actions >>= _) g = _
  rw [Boxing.bind_ok run]
  rfl

/-- The entries of a map from values are set in the order in which their keys are shown. -/
theorem boxKeyed_eq {actions : List (Value × Boxing Value)} {ps : List (Value × Value)}
    (run : perform (keyTable actions) g = .ok (ps, l)) :
    boxKeyed actions g = boxEntries .empty (ps.mergeSort (byShown l.repr)) l :=
  boxInOrder_eq run

/-- A key of a dictionary is shown the same in every heap. -/
theorem repr_of_hashable {v : Value} (form : v.keyForm ≠ .unhashable) (h : Heap) :
    h.repr v = Heap.empty.repr v := by
  cases v with
  | none | bool | int | real | string => rfl
  | _ => exact absurd rfl form

/-- What is made of the entries is sorted as the entries are. -/
theorem made_sorted {t : List (Value × Boxing Value)} {ps : List (Value × Value)}
    (hashable : ∀ e ∈ t, e.1.keyForm ≠ .unhashable) (made : List.Forall₂ (Made h l) t ps) :
    List.Forall₂ (Made h l) (t.mergeSort (byShown Heap.empty.repr)) (ps.mergeSort (byShown l.repr)) := by
  have keyed : List.Forall₂ (fun e p => Made h l e p ∧ e.1.keyForm ≠ .unhashable) t ps :=
    forall₂_of_mem made fun e mem p _ m => ⟨m, hashable e mem⟩
  refine (forall₂_mergeSort keyed ?_).imp fun e p both => both.1
  rintro e p f q ⟨⟨key, -⟩, form⟩ ⟨⟨key', -⟩, form'⟩
  rw [byShown, byShown, key, key', repr_of_hashable form l, repr_of_hashable form' l]

/-- Two maps from values that are the same when sorted by how their keys are shown. -/
theorem alike_boxKeyed {as as' : List (Value × Boxing Value)}
    (steady : ∀ e ∈ keyTable as, Steady h e.2)
    (sorted : (keyTable as).mergeSort (byShown Heap.empty.repr) = (keyTable as').mergeSort (byShown Heap.empty.repr))
    (hg : h.Appends g) (hg' : h.Appends g') :
    Alike h.Twins (boxKeyed as) (boxKeyed as') g g' := by
  intro v m run
  obtain ⟨ps, l, ran, -⟩ : ∃ ps l, perform (keyTable as) g = .ok (ps, l) ∧ _ :=
    Boxing.of_bind_ok run
  rw [boxKeyed_eq ran] at run
  have perm : (keyTable as).Perm (keyTable as') := by
    refine (List.mergeSort_perm _ (byShown Heap.empty.repr)).symm.trans ?_
    rw [sorted]
    exact List.mergeSort_perm _ _
  obtain ⟨ps', l', ran', grown, grown', made, made'⟩ := perform_again steady perm hg hg' ran
  rw [boxKeyed_eq ran']
  have hashable : ∀ e ∈ keyTable as, e.1.keyForm ≠ .unhashable := by
    intro e mem
    obtain ⟨p, there, key, -⟩ := exists_left_of_mem made.flip e mem
    rw [← key]
    exact hashable_of_boxEntries run p (List.mem_mergeSort.mpr there)
  have first := made_sorted hashable made
  have second := made_sorted (fun e mem => hashable e (perm.mem_iff.mpr mem)) made'
  rw [← sorted] at second
  have matched : List.Forall₂ (Match h l l') (ps.mergeSort (byShown l.repr)) (ps'.mergeSort (byShown l'.repr)) :=
    forall₂_join first second fun e mem p p' made made' =>
      made.twins made' (steady e (List.mem_mergeSort.mp mem))
  obtain ⟨v', m', done, more, more', twins⟩ :=
    alike_boxEntries (hg.trans grown) (hg'.trans grown') matched .empty v m run
  exact ⟨v', m', done, grown.trans more, grown'.trans more', twins⟩

/-- What holds of every action holds of those in the table that they make. -/
theorem forall_mem_table {κ α : Type} {P : α → Prop} {set : List (κ × α) → κ × α → List (κ × α)}
    (kept : ∀ t e, P e.2 → (∀ f ∈ t, P f.2) → ∀ f ∈ set t e, P f.2) {es : List (κ × α)}
    (each : ∀ e ∈ es, P e.2) : ∀ f ∈ es.foldl set [], P f.2 := by
  suffices fold : ∀ t : List (κ × α), (∀ f ∈ t, P f.2) → ∀ f ∈ es.foldl set t, P f.2 from
    fold [] fun f mem => absurd mem List.not_mem_nil
  induction es with
  | nil => exact fun t ht => ht
  | cons e es ih =>
    obtain ⟨here, there⟩ := List.forall_mem_cons.mp each
    exact fun t ht => ih there _ (kept t e here ht)

theorem forall_mem_setKey {α : Type} {P : α → Prop} {key : Value} {x : α} (hx : P x) :
    ∀ {t : List (Value × α)}, (∀ e ∈ t, P e.2) → ∀ e ∈ setKey key x t, P e.2
  | [], _ => List.forall_mem_singleton.mpr hx
  | e :: rest, each => by
    obtain ⟨here, there⟩ := List.forall_mem_cons.mp each
    rw [setKey]
    split
    · exact List.forall_mem_cons.mpr ⟨hx, there⟩
    · exact List.forall_mem_cons.mpr ⟨here, forall_mem_setKey hx there⟩

theorem forall_mem_put {α : Type} {P : α → Prop} {name : String} {x : α} (hx : P x) :
    ∀ {t : Table α}, (∀ e ∈ t, P e.2) → ∀ e ∈ t.put name x, P e.2
  | [], _ => List.forall_mem_singleton.mpr hx
  | e :: rest, each => by
    obtain ⟨here, there⟩ := List.forall_mem_cons.mp each
    rw [Table.put]
    split
    · exact List.forall_mem_cons.mpr ⟨hx, there⟩
    · exact List.forall_mem_cons.mpr ⟨here, forall_mem_put hx there⟩

/-- A map from names. -/
theorem alike_boxNamed {as : List (String × Boxing Value)} (steady : ∀ e ∈ as, Steady h e.2)
    (hg : h.Appends g) (hg' : h.Appends g') :
    Alike h.Twins (boxNamed as) (boxNamed as) g g' := by
  have table : ∀ e ∈ (as.foldl (fun (t : Table (Boxing Value)) e => t.put e.1 e.2) []).mergeSort
      fun a b => decide (a.1 ≤ b.1), Steady h e.2 := by
    have each := forall_mem_table
      (fun t e he each => @forall_mem_put _ (Steady h) e.1 e.2 he t each) steady
    exact fun e mem => each e (List.mem_mergeSort.mp mem)
  refine Alike.bind (R := fun l l' => List.Forall₂ (Match h l l')) ?_ ?_
  · intro ps l run
    obtain ⟨ps', l', run', grown, grown', made, made'⟩ := perform_again table (.refl _) hg hg' run
    exact ⟨ps', l', run', grown, grown', forall₂_join made made' fun e mem p p' m m' =>
      m.twins m' (table e mem)⟩
  · intro ps ps' l l' grown grown' all
    refine alike_boxEntries (hg.trans grown) (hg'.trans grown') ?_ .empty
    rw [List.forall₂_map_left_iff, List.forall₂_map_right_iff]
    exact all.imp fun p p' same => ⟨congrArg Value.string same.1, same.2⟩

/-! ### Data -/

mutual

/-- The containers that the data names are in the heap. -/
def Within (h : Heap) : HostData → Prop
  | .value v => h.Has v
  | .values vs => ∀ v ∈ vs, h.Has v
  | .list xs => WithinAll h xs
  | .named es => WithinFields h es
  | .keyed es => WithinEntries h es
  | _ => True

def WithinAll (h : Heap) : List HostData → Prop
  | [] => True
  | x :: xs => x.Within h ∧ WithinAll h xs

def WithinFields (h : Heap) : List (String × HostData) → Prop
  | [] => True
  | (_, x) :: rest => x.Within h ∧ WithinFields h rest

def WithinEntries (h : Heap) : List (Value × HostData) → Prop
  | [] => True
  | (_, x) :: rest => x.Within h ∧ WithinEntries h rest

end

mutual

/-- Boxing data twice gives values of the same structure. -/
theorem steady_box : ∀ x : HostData, x.Within h → Steady h x.box
  | .nothing, _ | .bool _, _ | .text _, _ | .int _, _ | .real _, _ =>
    fun _ _ _ _ => .pure (.same (Heap.has_leaf rfl))
  | .value v, within => fun _ _ _ _ => .pure (.same within)
  | .natural n, _ => by
    intro g g' hg hg'
    rw [box]
    split
    · exact .pure (.same (Heap.has_leaf rfl))
    · rintro a l ⟨⟩
  | .values vs, within => by
    rintro g g' hg hg' a l ⟨⟩
    exact ⟨_, _, rfl, .newArray g _, .newArray g' _,
      .newArray hg hg' (List.forall₂_same.mpr fun v mem => .same (within v mem))⟩
  | .list xs, within => by
    intro g g' hg hg'
    rw [box]
    refine (alike_boxItems xs within g g' hg hg').bind ?_
    rintro vs vs' l l' grown grown' all a m ⟨⟩
    exact ⟨_, _, rfl, .newArray l _, .newArray l' _,
      .newArray (hg.trans grown) (hg'.trans grown') all⟩
  | .named es, within => by
    intro g g' hg hg'
    rw [box]
    exact alike_boxNamed (steady_fields es within) hg hg'
  | .keyed es, within => by
    intro g g' hg hg'
    rw [box]
    exact alike_boxKeyed (forall_mem_table (fun _ _ he each => forall_mem_setKey he each)
      (steady_entries es within)) rfl hg hg'
  | .foreign _, _ => by
    rintro g g' hg hg' a l ⟨⟩

theorem alike_boxItems : ∀ xs : List HostData, WithinAll h xs → ∀ g g', h.Appends g →
    h.Appends g' → Alike (fun l l' => List.Forall₂ (h.Twins l l')) (boxItems xs) (boxItems xs) g g'
  | [], _, _, _, _, _ => .pure .nil
  | x :: xs, within, g, g', hg, hg' => by
    rw [boxItems]
    refine (steady_box x within.1 g g' hg hg').bind fun v v' l l' grown grown' twins => ?_
    refine (alike_boxItems xs within.2 l l' (hg.trans grown) (hg'.trans grown')).bind ?_
    exact fun vs vs' m m' more more' all => .pure (.cons (twins.mono more more') all)

theorem steady_fields : ∀ es : List (String × HostData), WithinFields h es →
    ∀ e ∈ namedActions es, Steady h e.2
  | [], _ => fun _ mem => absurd mem List.not_mem_nil
  | (_, x) :: rest, within =>
    List.forall_mem_cons.mpr ⟨steady_box x within.1, steady_fields rest within.2⟩

theorem steady_entries : ∀ es : List (Value × HostData), WithinEntries h es →
    ∀ e ∈ keyedActions es, Steady h e.2
  | [], _ => fun _ mem => absurd mem List.not_mem_nil
  | (_, x) :: rest, within =>
    List.forall_mem_cons.mpr ⟨steady_box x within.1, steady_entries rest within.2⟩

end

/-! ### Maps from atoms -/

/-- A map from atoms. -/
def ofAtoms (es : List (Atom × HostData)) : HostData :=
  .keyed (es.map fun e => (e.1.value, e.2))

/-- The entries of a map from atoms in the order in which their keys are shown. -/
def inOrder (es : List (Atom × HostData)) : List (Atom × HostData) :=
  es.mergeSort (byShown Atom.text)

/-- The action for an entry. -/
def action (e : Atom × HostData) : Value × Boxing Value := (e.1.value, e.2.box)

variable {es es' : List (Atom × HostData)}

theorem sameKey_value {a b : Atom} : sameKey a.value b.value = true ↔ a = b := by
  cases a <;> cases b <;> simp [sameKey, Atom.value]

theorem setKey_of_new {α : Type} {key : Value} {x : α} : ∀ {t : List (Value × α)},
    (∀ e ∈ t, sameKey e.1 key = false) → setKey key x t = t ++ [(key, x)]
  | [], _ => rfl
  | e :: rest, fresh => by
    obtain ⟨here, there⟩ := List.forall_mem_cons.mp fresh
    rw [setKey, if_neg (by rw [here]; exact Bool.false_ne_true), setKey_of_new there,
      List.cons_append]

/-- With different atoms as keys, every entry has its own action. -/
theorem keyTable_action : ∀ {t : List (Value × Boxing Value)} {done : List (Atom × HostData)},
    t = done.map action → ((done ++ es).map Prod.fst).Nodup →
    (es.map action).foldl (fun t e => setKey e.1 e.2 t) t = (done ++ es).map action := by
  induction es with
  | nil =>
    rintro t done rfl -
    rw [List.append_nil, List.map_nil, List.foldl_nil]
  | cons e es ih =>
    rintro t done rfl once
    have fresh : ∀ f ∈ done.map action, sameKey f.1 e.1.value = false := by
      intro f mem
      obtain ⟨f, there, rfl⟩ := List.mem_map.mp mem
      rw [Bool.eq_false_iff]
      intro same
      rw [List.map_append, List.map_cons] at once
      exact (List.nodup_append.mp once).2.2 _ (List.mem_map_of_mem there) _ List.mem_cons_self
        (sameKey_value.mp same)
    rw [List.append_cons] at once ⊢
    rw [List.map_cons, List.foldl_cons]
    refine ih ?_ once
    rw [action, setKey_of_new fresh, List.map_append]
    rfl

theorem keyTable_map_action (once : (es.map Prod.fst).Nodup) :
    keyTable (es.map action) = es.map action :=
  have none : ([] : List (Value × Boxing Value)) = List.map action [] := rfl
  keyTable_action none once

theorem keyedActions_ofAtoms : ∀ es : List (Atom × HostData),
    keyedActions (es.map fun e => (e.1.value, e.2)) = es.map action
  | [] => rfl
  | _ :: es => congrArg (_ :: ·) (keyedActions_ofAtoms es)

/-- Sorting the actions by how the keys are shown sorts the entries. -/
theorem sorted_action (es : List (Atom × HostData)) :
    (es.map action).mergeSort (byShown Heap.empty.repr) = (inOrder es).map action := by
  refine (List.map_mergeSort fun e _ f _ => ?_).symm
  rw [byShown, byShown, action, action, Heap.repr_value, Heap.repr_value]

/-- As no two keys are shown alike, there is one order. -/
theorem inOrder_perm (once : (es.map Prod.fst).Nodup) (perm : es.Perm es') :
    inOrder es = inOrder es' := by
  refine mergeSort_byShown_perm ?_ perm
  have apart := once.map fun a b same => Atom.text_inj same
  rwa [List.map_map] at apart

/-- Setting entries one after the other in an ordered map. -/
def setAll (es : List (Value × Value)) (t : Entries) : Option Entries :=
  es.foldlM (fun t e => t.set? e.1 e.2) t

/-- Entries whose keys can be keys are set one after the other in a new dictionary. -/
theorem boxEntries_of_hashable : ∀ {es : List (Value × Value)} {d : Dictionary}, d.Sound →
    (∀ e ∈ es, e.1.keyForm ≠ .unhashable) → ∃ (r : DictRef) (l : Heap),
      boxEntries d es g = .ok (.dict r, l) ∧ g.Appends l ∧ ¬ (Container.dict r).In g ∧
      setAll es d.entries = some (l.dict r).entries
  | [], d, _, _ =>
    ⟨⟨g.dicts.size⟩, (g.newDict d).2, rfl, .newDict g d, Nat.lt_irrefl _, by rw [Heap.dict_newDict]; rfl⟩
  | (k, v) :: rest, d, sound, hashable => by
    obtain ⟨here, there⟩ := List.forall_mem_cons.mp hashable
    have made : d.insert? k v = some (d.insert k v) := if_neg here
    obtain ⟨kept, entries⟩ := sound.insert? k v
    obtain ⟨r, l, run, more, new, set⟩ := boxEntries_of_hashable (kept _ made) there
    refine ⟨r, l, by rw [boxEntries, made]; exact run, more, new, ?_⟩
    rw [made] at entries
    rw [setAll, List.foldlM_cons, ← entries]
    exact set

theorem hashable_value (a : Atom) : a.value.keyForm ≠ .unhashable := by
  intro same
  cases a <;> cases same

/-- What is made of the entries of a map from atoms, sorted. -/
theorem made_inOrder {ps : List (Value × Value)}
    (made : List.Forall₂ (Made h l) (es.map action) ps) :
    List.Forall₂ (fun e p => Made h l (action e) p) (inOrder es) (ps.mergeSort (byShown l.repr)) := by
  rw [← List.forall₂_map_left_iff, ← sorted_action]
  exact made_sorted (List.forall_mem_map.mpr fun e _ => hashable_value e.1) made

/-- The entries of a map from atoms can be met in any order.  The dictionary is always the same: it
has the same keys in the same order and form and the same index, and under each the same value, but
for the places of what is new.  The values are those of the data, set in the order in which the keys
are shown, as no two keys are shown alike. -/
theorem box_ofAtoms_perm (once : (es.map Prod.fst).Nodup) (perm : es.Perm es')
    (within : ∀ e ∈ es, e.2.Within h) (boxes : ∀ e ∈ es, ∃ p, e.2.box h = .ok p) :
    ∃ (d d' : DictRef) (g g' : Heap), (ofAtoms es).box h = .ok (.dict d, g) ∧
      (ofAtoms es').box h = .ok (.dict d', g') ∧ ¬ (Container.dict d).In h ∧
      ¬ (Container.dict d').In h ∧ h.Twins g g' (.dict d) (.dict d') ∧
      (∃ ws, List.Forall₂ (fun e w => ∃ p, e.2.box h = .ok p ∧ h.Twins p.2 g p.1 w)
          (inOrder es) ws ∧
        setAll (((inOrder es).map fun e => e.1.value).zip ws) [] = some (g.dict d).entries) ∧
      ∀ (k : Heap) (a b : Atom), k.repr a.value = k.repr b.value → a = b := by
  have steady : ∀ e ∈ es.map action, Steady h e.2 :=
    List.forall_mem_map.mpr fun e mem => steady_box e.2 (within e mem)
  have table := keyTable_map_action once
  have table' := keyTable_map_action ((perm.map Prod.fst).nodup_iff.mp once)
  obtain ⟨ps, l, run, grown, made⟩ := exists_made steady (List.forall_mem_map.mpr boxes)
  have sorted := made_inOrder made
  have hashable : ∀ p ∈ ps.mergeSort (byShown l.repr), p.1.keyForm ≠ .unhashable := by
    intro p mem
    obtain ⟨e, -, key, -⟩ := exists_left_of_mem sorted p mem
    rw [key]
    exact hashable_value e.1
  obtain ⟨d, g, done, more, new, set⟩ := boxEntries_of_hashable (g := l) Dictionary.sound_empty hashable
  have boxed : (ofAtoms es).box h = .ok (.dict d, g) := by
    rw [← table] at run
    rw [ofAtoms, box, keyedActions_ofAtoms, boxKeyed_eq run]
    exact done
  have again : Alike h.Twins (boxKeyed (es.map action)) (boxKeyed (es'.map action)) h h := by
    refine alike_boxKeyed (by rwa [table]) ?_ (.refl h) (.refl h)
    rw [table, table', sorted_action, sorted_action, inOrder_perm once perm]
  rw [← keyedActions_ofAtoms, ← keyedActions_ofAtoms] at again
  obtain ⟨w, g', boxed', -, -, twins⟩ := again _ g boxed
  have fresh : ¬ (Container.dict d).In h := fun inside => new (grown.isIn inside)
  cases twins with
  | same inside => exact absurd (inside _ rfl) fresh
  | @dict d d' _ fresh' inside inside' slots index even each =>
    refine ⟨d, d', g, g', boxed, boxed', fresh, fresh',
      .dict fresh fresh' inside inside' slots index even each,
      ⟨(ps.mergeSort (byShown l.repr)).map Prod.snd, ?_, ?_⟩, fun k a b same => Heap.repr_atom_inj same⟩
    · refine List.forall₂_map_right_iff.mpr (forall₂_of_mem sorted fun e mem q _ made => ?_)
      have there := List.mem_mergeSort.mp mem
      obtain ⟨p, ran⟩ := boxes e there
      have alone : Made h p.2 (action e) (e.1.value, p.1) := ⟨rfl, h, p.2, .refl h, ran, .refl _⟩
      exact ⟨p, ran, (alone.twins made (steady_box e.2 (within e there))).2.mono (.refl _) more⟩
    · have keys : (ps.mergeSort (byShown l.repr)).map Prod.fst = (inOrder es).map fun e => e.1.value :=
        map_eq_map_of_forall₂ sorted fun e _ q made => made.1
      rw [← keys, ← List.zip_of_prod rfl rfl]
      exact set

end HostData

end Pseudocode
