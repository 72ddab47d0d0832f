import Pseudocode.Proofs.Places.Natives
import Pseudocode.Run.Import
/-
# `Proofs.Places.Opening` — modules of builtin members, and texts that are opened

The members of extensions and the builtin functions are made anew, and hold nothing that was
there before.

A text that is run changes where its interpreter stands, for good: in a source unit of its
own, and in the root scope.  So it is judged from two stands, the one before and the one in
the unit (`Stand.Leads`, `outcome_runTree`).
-/
namespace Pseudocode

open Library

variable {ℓ : Likeness} {S : Stand ℓ} {w w' : World} {p : Prop} {r r' : Recursor}

/-! ## Actions that always end well -/

/-- An action that ends well, wherever it is performed. -/
def Eval.Total {α : Type} (x : Eval α) : Prop := ∀ env w, ∃ a w', x env w = .ok a w'

namespace Eval.Total

variable {α β : Type}

theorem pure (a : α) : Total (Pure.pure a : Eval α) := fun _ w => ⟨a, w, rfl⟩

theorem bind {x : Eval α} {f : α → Eval β} (hx : Total x) (hf : ∀ a, Total (f a)) :
    Total (x >>= f) := by
  intro env w
  obtain ⟨a, w₁, ha⟩ := hx env w
  obtain ⟨b, w₂, hb⟩ := hf a env w₁
  exact ⟨b, w₂, (Eval.bind_ok ha f).trans hb⟩

theorem define (s : ScopeRef) (name : String) (v : Value) (constant : Bool) :
    Total (Eval.define s name v constant) :=
  .bind (fun _ _ => ⟨_, _, rfl⟩) fun _ => .bind (fun _ _ => ⟨_, _, rfl⟩) fun e => by
    cases e with
    | none => exact .pure ()
    | some e => exact fun _ _ => ⟨_, _, rfl⟩

end Eval.Total

theorem Library.total_addMembers : ∀ (ms : List (String × Member)) (t : Table Value),
    (addMembers t ms).Total
  | [], t => .pure t
  | (name, m) :: ms, t => by
    refine .bind (fun env w => ?_) fun v => total_addMembers ms (t.put name v)
    cases m <;> exact ⟨_, _, rfl⟩

theorem Library.total_build (name : String) (ms : List (String × Member)) : (build name ms).Total :=
  .bind (total_addMembers ms []) fun _ _ _ => ⟨_, _, rfl⟩

theorem Run.total_bindAll (root : ScopeRef) : ∀ t : Table Value, (bindAll root t).Total
  | [] => .pure ()
  | e :: t => .bind (.define root e.1 e.2 false) fun _ => total_bindAll root t

/-- The builtin functions can always be bound. -/
theorem Run.total_install (home : InterpreterId) (root : ScopeRef) : (install home root).Total :=
  .bind (total_addMembers _ []) fun core => .bind (total_bindAll root core) fun _ =>
    .bind (fun _ _ => ⟨_, _, rfl⟩) fun l => .bind (.define root "BUILTINS" l false) fun _ =>
      .bind (total_addMembers _ []) (total_bindAll root)

/-! ## Building modules -/

/-- A member that may be held. -/
def Member.Fits (R : Realm) : Member → Prop
  | .value v => v.Leaf
  | .function a => R.Carries a

theorem Member.Fits.mono {R R' : Realm} (g : R.Grows R') {m : Member} (hm : m.Fits R) :
    m.Fits R' := by
  cases m with
  | value v => exact hm
  | function a => exact g.carries hm

theorem mirrors_memberValue (name : String) {m : Member} (hm : m.Fits (S.realm w)) :
    Mirrors S w p (memberValue name m) (memberValue name m) := by
  cases m with
  | value v => exact mirrors_leaf hm
  | function a => exact .newBuiltin name hm

theorem mirrors_addMembers : ∀ (ms : List (String × Member)) {t : Table Value} {w : World},
    (∀ m ∈ ms, m.2.Fits (S.realm w)) → t.All (S.realm w).Holds →
      Mirrors S w p (addMembers t ms) (addMembers (t.recast ℓ.naming.recast) ms)
  | [], _, _, _, ht => .pure ht
  | (name, m) :: ms, t, w, hms, ht => by
    refine (mirrors_memberValue name (hms _ List.mem_cons_self)).bind fun v w₁ _ steps hv => ?_
    have rest := mirrors_addMembers ms (t := t.put name v)
      (fun m hm => (hms m (List.mem_cons_of_mem _ hm)).mono steps.grows)
      ((ht.mono fun _ => steps.holds).put hv)
    rwa [Table.recast_put] at rest

theorem mirrors_build (name : String) {ms : List (String × Member)}
    (hms : ∀ m ∈ ms, m.2.Fits (S.realm w)) : Mirrors S w p (build name ms) (build name ms) :=
  (mirrors_addMembers ms (t := []) hms .nil).bind fun t _ _ _ ht =>
    .newLibrary (l := ⟨name, t⟩) ht

/-- An extension is built alike, or cannot be loaded at all. -/
theorem mirrors_loadExtension (e : Extension) : Mirrors S w p e.load e.load := by
  cases e with
  | math =>
    refine mirrors_build _ fun m hm => ?_
    simp only [Math.members, List.mem_append, List.mem_map, List.mem_cons, List.not_mem_nil,
      or_false] at hm
    rcases hm with ((rfl | rfl | rfl | rfl | rfl) | ⟨f, -, rfl⟩) |
      (rfl | rfl | rfl | rfl | rfl | rfl | rfl | rfl | rfl | rfl) <;> exact trivial
  | system =>
    refine mirrors_build _ fun m hm => ?_
    simp only [SystemModule.members, List.mem_cons, List.not_mem_nil, or_false] at hm
    rcases hm with rfl | rfl | rfl | rfl | rfl | rfl <;> exact trivial
  | crypto =>
    refine mirrors_build _ fun m hm => ?_
    simp only [CryptoModule.members, List.mem_cons, List.not_mem_nil, or_false] at hm
    rcases hm with rfl | rfl | rfl | rfl | rfl <;> exact trivial
  | locale =>
    refine mirrors_build _ fun m hm => ?_
    simp only [LocaleModule.members, List.mem_cons, List.not_mem_nil, or_false] at hm
    rcases hm with rfl | rfl | rfl | rfl | rfl <;> exact trivial
  | probe =>
    have counted : Mirrors S w p Probe.newCounter Probe.newCounter :=
      .step (a := w.counters.size) rfl rfl rfl rfl rfl trivial
    refine counted.bind fun counter w₁ ready _ _ => .look rfl rfl (mirrors_build _ fun m hm => ?_)
    have self : (S.realm w₁).Home S.self := ready.self
    simp only [Probe.members, List.mem_cons, List.not_mem_nil, or_false] at hm
    rcases hm with rfl | rfl | rfl | rfl | rfl | rfl | rfl | rfl | rfl | rfl | rfl <;>
      first | exact self | exact trivial
  | broken => exact .raise (.plain _) fun _ _ => trivial

/-- An extension that can be loaded is loaded. -/
theorem Extension.total_load {e : Extension} (he : e ≠ .broken) : e.load.Total := by
  cases e with
  | probe =>
    exact .bind (fun _ _ => ⟨_, _, rfl⟩) fun counter => .bind (fun _ _ => ⟨_, _, rfl⟩) fun env =>
      total_build _ _
  | broken => exact absurd rfl he
  | _ => exact total_build _ _

/-- What can be loaded needs no rescue. -/
theorem Extension.tryCatch_load {e : Extension} (he : e ≠ .broken) (k : Failure → Eval Value) :
    tryCatch e.load k = e.load := by
  funext env w
  obtain ⟨v, w', loaded⟩ := Extension.total_load he env w
  rw [Eval.tryCatch_ok loaded, loaded]

/-- An extension is loaded, or what is said of one that cannot be. -/
theorem mirrors_rescueExtension (e : Extension) {k k' : Failure → Eval Value}
    (hk : Mirrors S w p (k (.fault (.plain "no connection"))) (k' (.fault (.plain "no connection")))) :
    Mirrors S w p (tryCatch e.load k) (tryCatch e.load k') := by
  by_cases he : e = .broken
  · subst he
    exact hk
  · rw [Extension.tryCatch_load he, Extension.tryCatch_load he]
    exact mirrors_loadExtension e

/-! ## The builtin functions of an interpreter -/

theorem mirrors_bindAll {root : ScopeRef} (hroot : S.marks.scopes ≤ root.index) :
    ∀ (t : Table Value) {w : World}, t.All (S.realm w).Holds →
      Mirrors S w p (Run.bindAll root t) (Run.bindAll root (t.recast ℓ.naming.recast))
  | [], _, _ => .pure (a := ()) trivial
  | e :: t, _, ht =>
    (Mirrors.define hroot e.1 (ht e List.mem_cons_self) false).bind fun _ _ _ steps _ =>
      mirrors_bindAll hroot t fun e' he' => steps.holds (ht e' (List.mem_cons_of_mem e he'))

theorem mirrors_install {home : InterpreterId} (hh : (S.realm w).Home home) {root : ScopeRef}
    (hroot : S.marks.scopes ≤ root.index) :
    Mirrors S w p (Run.install home root) (Run.install home root) := by
  have fits : ∀ {w' : World} (table : List (String × Native)),
      (∀ e ∈ table, (S.realm w').Carries e.2) → ∀ m ∈ Run.functions table, m.2.Fits (S.realm w') := by
    intro w' table ht m hm
    obtain ⟨e, he, rfl⟩ := List.mem_map.mp hm
    exact ht e he
  have core : ∀ e ∈ Builtins.subroutines home, (S.realm w).Carries e.2 := by
    intro e he
    simp only [Builtins.subroutines, List.mem_cons, List.not_mem_nil, or_false] at he
    rcases he with rfl | rfl | rfl | rfl | rfl | rfl | rfl | rfl | rfl | rfl | rfl | rfl <;>
      first | exact hh | exact trivial
  have conversions : ∀ e ∈ Builtins.conversions home, (S.realm w).Carries e.2 := by
    intro e he
    simp only [Builtins.conversions, List.mem_cons, List.not_mem_nil, or_false] at he
    rcases he with rfl | rfl | rfl | rfl | rfl | rfl | rfl <;> first | exact hh | exact trivial
  refine (mirrors_addMembers _ (t := []) (fits _ core) .nil).bind
    fun t w₁ _ s₁ ht => ?_
  refine (mirrors_bindAll hroot t ht).bind fun _ w₂ _ s₂ _ => ?_
  refine (Mirrors.newLibrary (l := ⟨"BUILTINS", t⟩) (ht.mono fun _ => s₂.holds)).bind
    fun l w₃ _ s₃ hl => ?_
  refine (Mirrors.define hroot "BUILTINS" hl false).bind fun _ w₄ _ s₄ _ => ?_
  have steps := ((s₁.trans s₂).trans s₃).trans s₄
  refine (mirrors_addMembers _ (t := []) (fits _ fun e he =>
    steps.grows.carries (conversions e he)) .nil).bind fun t w₅ _ _ ht => ?_
  exact mirrors_bindAll hroot t ht

/-! ## Changes of an interpreter -/

/-- The world with an interpreter changed. -/
def World.changing (w : World) (id : InterpreterId) (f : Interpreter → Interpreter) : World :=
  { w with interpreters := w.interpreters.modify id.index f }

theorem World.size_changing (w : World) (id : InterpreterId) (f : Interpreter → Interpreter) :
    (w.changing id f).interpreters.size = w.interpreters.size := Array.size_modify

theorem World.row_changing (w : World) {id : InterpreterId} (known : id.index < w.interpreters.size)
    (f : Interpreter → Interpreter) : (w.changing id f).row id.index = f (w.row id.index) := by
  simp only [row, changing, Heap.getD_modify, known, and_self, if_true]

theorem Renaming.world_changing {σ : Renaming} (w : World) (id : InterpreterId)
    {f g : Interpreter → Interpreter} (same : ∀ i, σ.interpreter (f i) = g (σ.interpreter i)) :
    σ.world (w.changing id f) = (σ.world w).changing id g := by
  simp only [world, World.changing]
  congr 1
  exact Heap.map_modify _ _ same

namespace Stand

/-- What a run leaves as it was that may change the executing interpreter. -/
structure Leads (S : Stand ℓ) (w w' : World) : Prop where
  kept : S.marks.Kept w.heap w'.heap
  rows : ∀ i < w.interpreters.size, i ≠ S.self.index → w'.interpreters[i]? = w.interpreters[i]?
  size : w.interpreters.size ≤ w'.interpreters.size
  units : w.nextUnit ≤ w'.nextUnit

variable {w'' : World}

theorem Leads.trans (h : S.Leads w w') (k : S.Leads w' w'') : S.Leads w w'' :=
  ⟨h.kept.trans k.kept, fun i hi other =>
    (k.rows i (Nat.lt_of_lt_of_le hi h.size) other).trans (h.rows i hi other),
    Nat.le_trans h.size k.size, Nat.le_trans h.units k.units⟩

theorem Steps.leads (h : S.Steps w w') : S.Leads w w' :=
  ⟨h.kept, fun i hi _ => h.rows i hi, h.size, h.units⟩

/-- In another unit, what is left as it was is the same. -/
theorem Leads.of_within {o : Origin} (h : (S.within o).Leads w w') : S.Leads w w' :=
  ⟨h.kept, h.rows, h.size, h.units⟩

theorem leads_changing (w : World) (f : Interpreter → Interpreter) :
    S.Leads w (w.changing S.self f) where
  kept := .refl _ _
  rows i _ other := by
    rw [World.changing, Array.getElem?_modify, if_neg (Ne.symm other)]
  size := Nat.le_of_eq (w.size_changing S.self f).symm
  units := Nat.le_refl _

theorem realm_changing (S : Stand ℓ) (w : World) (id : InterpreterId)
    (f : Interpreter → Interpreter) : S.realm (w.changing id f) = S.realm w := by
  simp only [realm, Likeness.realm, World.size_changing]
  rfl

/-- An interpreter that is changed may still be stood on. -/
theorem Ready.change (hr : S.Ready w) {f : Interpreter → Interpreter} {o : Origin}
    (stable : (w.row S.self.index).Stable ℓ.setup ℓ.home S.marks w.nextUnit →
      (f (w.row S.self.index)).Stable ℓ.setup ℓ.home S.marks w.nextUnit)
    (here : (f (w.row S.self.index)).frame.origin = o) :
    (S.within o).Ready (w.changing S.self f) := by
  obtain ⟨old, known⟩ := hr.self
  refine ⟨?_, ?_, ?_, ?_, hr.fresh, hr.units, hr.level, hr.numbered⟩
  · rw [realm_changing]
    exact hr.tame
  · refine Store.Young.modify_cell hr.rows S.self.index fun i found _ => ?_
    have row : w.row S.self.index = i := by
      rw [World.row, Array.getD_eq_getD_getElem?, found]
      rfl
    rw [row] at stable
    exact stable (row ▸ hr.row)
  · rw [realm_changing]
    exact ⟨old, known⟩
  · change ((w.changing S.self f).row S.self.index).frame.origin = o
    rw [World.row_changing w known, here]

theorem Ready.newUnit (hr : S.Ready w) : S.Ready { w with nextUnit := w.nextUnit + 1 } := by
  have steps : S.Steps w { w with nextUnit := w.nextUnit + 1 } :=
    ⟨.refl _ _, .refl _ _, Nat.le_refl _, Nat.le_succ _⟩
  refine ⟨steps.grows.tame hr.tame, hr.rows.mono fun i hi => ?_, hr.self, hr.here,
    Nat.le_trans hr.fresh (Nat.le_succ _), Nat.le_trans hr.units (Nat.le_succ _), hr.level,
    hr.numbered⟩
  exact { hi with unit := Nat.lt_succ_of_lt hi.unit }

end Stand

/-! ## Texts -/

namespace Run

/-- Performs an action in the root scope, in a source unit. -/
def inUnit {α : Type} (unit : Nat) (source : String) (act : Eval α) : Eval α := do
  Eval.changeSelf fun i => { i with frame.origin := ⟨unit, i.name, source⟩ }
  prepare
  Eval.changeSelf fun i => { i with frame.scope := i.root }
  act

/-- Performs an action in the root scope, in a source unit of its own. -/
def inText {α : Type} (source : String) (act : Eval α) : Eval α := do
  inUnit (← newUnit) source act

theorem runSource_eq (r : Recursor) (source : String) :
    runSource r source = Eval.self >>= fun i =>
      match parse source i.name with
      | .error e => Eval.raise (.source e)
      | .ok program => inText source (discard (r.block program)) := rfl

end Run

theorem mirrors_bindExtension (name : String) :
    Mirrors S w p (Run.bindExtension name) (Run.bindExtension name) := by
  refine .look rfl rfl ?_
  rw [Stand.setup_env]
  cases Extension.find? ℓ.setup name with
  | none => exact .raise (.plain _) fun _ _ => trivial
  | some e =>
    refine .bind (mirrors_rescueExtension e (.raise (.plain _) fun _ _ => trivial))
      fun v w₁ ready _ hv => ?_
    refine .look (a := w₁.row S.self.index) (b := ℓ.naming.interpreter (w₁.row S.self.index))
      rfl ?_ (.define ready.row.root name hv false)
    change EStateM.Result.ok ((ℓ.naming.world w₁).row S.self.index) _ = _
    rw [Renaming.row_world]

theorem mirrors_bindExtensions : ∀ (names : List String) (w : World),
    Mirrors S w p (names.forM Run.bindExtension) (names.forM Run.bindExtension)
  | [], _ => .pure (a := ()) trivial
  | name :: names, _ => (mirrors_bindExtension name).bind fun _ w₁ _ _ _ =>
      mirrors_bindExtensions names w₁

section Texts

variable {α : Type} [Carried α]

omit [Carried α] in
theorem Eval.changeSelf_bind (f : Interpreter → Interpreter) (k : Unit → Eval α) (env : Env)
    (w : World) : (changeSelf f >>= k) env w = k () env (w.changing env.self f) := rfl

omit [Carried α] in
theorem Run.prepare_bind (k : Unit → Eval α) (env : Env) (w : World) :
    (prepare >>= k) env w = ((w.row env.self.index).pending.forM bindExtension >>= k) env
      (w.changing env.self fun i => { i with pending := [] }) := rfl

/-- An interpreter that is ready to execute a text: it stands in its root scope, and no
extension is to be bound there any more. -/
structure Interpreter.Settled (i : Interpreter) : Prop where
  scope : i.frame.scope = i.root
  pending : i.pending = []

/-- How an action ends that may change where its interpreter stands, for good: as from a
world that is led to, in which execution may stand, be it in another unit. -/
def Stand.Opens (S : Stand ℓ) (w : World) (p : Prop) (l k : EStateM.Result Failure World α) : Prop :=
  ∃ o w₀, S.Leads w w₀ ∧ (S.within o).Ready w₀ ∧ Ends (S.within o) w₀ p l k

theorem Stand.Opens.before {w₁ : World} (led : S.Leads w w₁) {l k : EStateM.Result Failure World α}
    (h : S.Opens w₁ p l k) : S.Opens w p l k := by
  obtain ⟨o, w₀, led₀, ready, ends⟩ := h
  exact ⟨o, w₀, led.trans led₀, ready, ends⟩

theorem Mirrors.opens {x y : Eval α} (h : Mirrors S w p x y) (ready : S.Ready w) :
    S.Opens w p (x S.env w) (y S.env (ℓ.naming.world w)) :=
  ⟨S.here, w, (Stand.Steps.refl S w).leads, ready, h ready⟩

/-- How an action ends that is performed in a text: in its unit, and if it ends well, it
began when all was settled, on the interpreter with its name. -/
structure Stand.Entered (S : Stand ℓ) (o : Origin) (w w₀ : World) (p : Prop)
    (l k : EStateM.Result Failure World α) : Prop where
  led : S.Leads w w₀
  ready : (S.within o).Ready w₀
  settled : ∀ a w', l = .ok a w' → (w₀.row S.self.index).Settled ∧
    (w₀.row S.self.index).name = (w.row S.self.index).name
  ends : Ends (S.within o) w₀ p l k

theorem Stand.Entered.opens {o : Origin} {w₀ : World} {l k : EStateM.Result Failure World α}
    (h : S.Entered o w w₀ p l k) : S.Opens w p l k := ⟨o, w₀, h.led, h.ready, h.ends⟩

/-- An action is performed in a unit as the other one is where that is found. -/
theorem entered_inUnit (ready : S.Ready w) {unit : Nat} (old : unit < w.nextUnit) (source : String)
    {x y : Eval α}
    (hx : ∀ w', S.Leads w w' →
      Mirrors (S.within ⟨unit, (w.row S.self.index).name, source⟩) w' p x y) :
    ∃ w₀, S.Entered ⟨unit, (w.row S.self.index).name, source⟩ w w₀ p
      (Run.inUnit unit source x S.env w)
      (Run.inUnit (ℓ.naming.unit unit) (ℓ.naming.text unit source) y S.env (ℓ.naming.world w)) := by
  have known : S.self.index < w.interpreters.size := ready.self.2
  -- The interpreter stands in the unit.
  let enter (i : Interpreter) : Interpreter := { i with frame.origin := ⟨unit, i.name, source⟩ }
  let enter' (i : Interpreter) : Interpreter :=
    { i with frame.origin := ⟨ℓ.naming.unit unit, i.name, ℓ.naming.text unit source⟩ }
  have same₂ : ℓ.naming.world (w.changing S.self enter) =
      (ℓ.naming.world w).changing S.self enter' := Renaming.world_changing _ _ fun _ => rfl
  let S' : Stand ℓ := S.within ⟨unit, (w.row S.self.index).name, source⟩
  have ready₂ : S'.Ready (w.changing S.self enter) :=
    ready.change (fun hi => { hi with unit := old, lexical := fun _ => .inr (.inl rfl) }) rfl
  -- Nothing is pending any more.
  let settle (i : Interpreter) : Interpreter := { i with pending := [] }
  let w₃ := (w.changing S.self enter).changing S.self settle
  have same₃ : ℓ.naming.world w₃ =
      (ℓ.naming.world (w.changing S.self enter)).changing S.self settle :=
    Renaming.world_changing _ _ fun _ => rfl
  have ready₃ : S'.Ready w₃ := ready₂.change (fun hi => { hi with }) ready₂.here
  have led₃ : S.Leads w w₃ := (Stand.leads_changing _ enter).trans (Stand.leads_changing _ settle)
  -- What was pending is bound, and then the action is performed in the root scope.
  let settled (i : Interpreter) : Interpreter := { i with frame.scope := i.root }
  let pending := ((w.changing S.self enter).row S.self.index).pending
  have left : Run.inUnit unit source x S.env w = (pending.forM Run.bindExtension >>= fun _ =>
      Eval.changeSelf settled >>= fun _ => x) S.env w₃ := rfl
  have right : Run.inUnit (ℓ.naming.unit unit) (ℓ.naming.text unit source) y S.env (ℓ.naming.world w) =
      (pending.forM Run.bindExtension >>= fun _ => Eval.changeSelf settled >>= fun _ => y) S.env
        (ℓ.naming.world w₃) := by
    have entered : (ℓ.naming.world w).changing S.env.self enter' =
        ℓ.naming.world (w.changing S.self enter) := same₂.symm
    have unpending : (ℓ.naming.world (w.changing S.self enter)).changing S.env.self settle =
        ℓ.naming.world w₃ := same₃.symm
    have rows : ((ℓ.naming.world (w.changing S.self enter)).row S.env.self.index).pending =
        pending := by
      rw [Renaming.row_world]
      rfl
    rw [Run.inUnit, Eval.changeSelf_bind, entered, Run.prepare_bind, unpending, rows]
  have bound := mirrors_bindExtensions (S := S') (p := p) pending w₃ ready₃
  rw [left, right]
  change Ends S' w₃ p (List.forM pending Run.bindExtension S.env w₃)
    (List.forM pending Run.bindExtension S.env (ℓ.naming.world w₃)) at bound
  generalize hl : List.forM pending Run.bindExtension S.env w₃ = l at bound
  generalize hk : List.forM pending Run.bindExtension S.env (ℓ.naming.world w₃) = k at bound
  cases bound with
  | @ok _ w₄ ready₄ steps good =>
    have same₅ : ℓ.naming.world (w₄.changing S.self settled) =
        (ℓ.naming.world w₄).changing S.self settled := Renaming.world_changing _ _ fun _ => rfl
    have ready₅ : S'.Ready (w₄.changing S.self settled) :=
      ready₄.change (fun hi => { hi with scope := hi.root }) ready₄.here
    have led₅ := (led₃.trans steps.leads.of_within).trans (Stand.leads_changing w₄ settled)
    have row : (w₄.changing S.self settled).row S.self.index = settled (settle (enter (w.row S.self.index))) := by
      have row₄ : w₄.row S.self.index = w₃.row S.self.index := steps.row ready₃.self.2
      have known₂ : S.self.index < (w.changing S.self enter).interpreters.size := ready₂.self.2
      have known₄ : S.self.index < w₄.interpreters.size := ready₄.self.2
      rw [World.row_changing w₄ known₄, row₄, World.row_changing _ known₂, World.row_changing w known]
    rw [Eval.bind_ok hl, Eval.bind_ok hk, Eval.changeSelf_bind, Eval.changeSelf_bind]
    have ends := hx _ led₅ ready₅
    rw [same₅] at ends
    refine ⟨w₄.changing S.self settled, led₅, ready₅, fun _ _ _ => ?_, ends⟩
    rw [row]
    exact ⟨⟨rfl, rfl⟩, rfl⟩
  | fault ready₄ steps alike located =>
    rw [Eval.bind_error hl, Eval.bind_error hk]
    exact ⟨w₃, led₃, ready₃, (fun _ _ h => by cases h), .fault ready₄ steps alike located⟩
  | stopped stops =>
    rw [Eval.bind_error hl]
    rw [← hk] at stops
    exact ⟨w₃, led₃, ready₃, (fun _ _ h => by cases h), .stopped (stops.bind _)⟩

omit [Carried α] in
theorem Run.inText_eq (source : String) (x : Eval α) (env : Env) (w : World) :
    inText source x env w = inUnit w.nextUnit source x env { w with nextUnit := w.nextUnit + 1 } := rfl

/-- An action is performed in a text as the other one is in the text in which that is
found. -/
theorem entered_inText (ready : S.Ready w) (source : String) {x y : Eval α}
    (hx : ∀ w', S.Leads w w' →
      Mirrors (S.within ⟨w.nextUnit, (w.row S.self.index).name, source⟩) w' p x y) :
    ∃ w₀, S.Entered ⟨w.nextUnit, (w.row S.self.index).name, source⟩ w w₀ p
      (Run.inText source x S.env w)
      (Run.inText (ℓ.naming.text w.nextUnit source) y S.env (ℓ.naming.world w)) := by
  have led₁ : S.Leads w { w with nextUnit := w.nextUnit + 1 } :=
    ⟨.refl _ _, fun _ _ _ => rfl, Nat.le_refl _, Nat.le_succ _⟩
  have renamed : { ℓ.naming.world w with nextUnit := (ℓ.naming.world w).nextUnit + 1 } =
      ℓ.naming.world { w with nextUnit := w.nextUnit + 1 } := by
    simp only [Renaming.world, ℓ.unit_succ w.nextUnit ready.fresh]
  obtain ⟨w₀, led, ready₀, settled, ends⟩ := entered_inUnit ready.newUnit (Nat.lt_succ_self _) source
    (x := x) (y := y) (p := p) fun w' led => hx w' (led₁.trans led)
  refine ⟨w₀, led₁.trans led, ready₀, settled, ?_⟩
  rw [Run.inText_eq, Run.inText_eq, renamed]
  exact ends

end Texts

end Pseudocode
