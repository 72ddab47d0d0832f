import Pseudocode.Proofs.Execution.Constants
/-
# `Proofs.Execution.Loops` — which rounds a `FOR` loop makes

A `FOR` loop settles what it goes over before its first round: the items that an
array, a dictionary or a string has then, or a range whose bounds are evaluated once.
As long as its name can be bound and its body neither breaks nor returns nor fails, it
makes one round for each of these values, in their order, and ends normally
(`Undisturbed.rounds`), whatever the body does to the items, to the name or to the
names in the bounds.

`Undisturbed` asks this only of the rounds that the loop comes to.  A round binds the
name, in the scope in which the loop stands, to a copy that is made there and then, of
containers that nothing else refers to (`Round`).
-/
namespace Pseudocode

/-! ## Executing from a valid state -/

/-- A context in which all that is known is that the state is valid.  Nothing is spared. -/
def Context.valid (stack : List InterpreterId) (env : Env) (w : World) : Context :=
  ⟨True, w.interpreters.size, stack, env, .empty, fun _ _ => True, False⟩

namespace Context

variable {stack : List InterpreterId} {env : Env} {w w' : World}

theorem open_valid : (valid stack env w).Open := fun _ _ => .inr trivial

theorem stands_valid : (valid stack env w).Stands w' := fun hs => absurd hs.2 (Nat.not_lt_zero _)

theorem ready_valid (hv : env.Valid w)
    (hs : ∀ i, w.depthOf i = stack.count ⟨i⟩ ∧ w.depthOf i ≤ env.setup.maxDepth) :
    (valid stack env w).Ready w where
  kept := Nat.le_refl _
  sound _ := hv.sound
  self _ := hv.self
  counted _ := hs
  constants := ⟨Nat.zero_le _, fun _ _ h => nomatch h⟩
  placed _ := hv.placed

end Context

namespace World.Evolves

variable {stack : List InterpreterId} {env : Env} {w w' : World}

/-- Execution comes back to the scope from which it started, and that scope is there. -/
theorem scopeIn_valid (h : w.Evolves (Context.valid stack env w) w')
    (hr : (Context.valid stack env w).Ready w) :
    env.scopeIn w' = env.scopeIn w ∧ (env.scopeIn w').index < w'.heap.scopes.size := by
  have hself := hr.self trivial
  refine ⟨?_, ((h.placed (hr.placed trivial)) _ (Nat.lt_of_lt_of_le hself h.size)).2⟩
  have hrow := h.rows env.self.index hself
  simp only [Env.scopeIn, World.row, Array.getD_eq_getD_getElem?, hrow]

end World.Evolves

theorem Safe.evolves_ok {α : Type} {c : Context} {w w' : World} {x y : Eval α} {a : α}
    {V : World → α → Prop} {E : Fault → Prop} (hx : Safe c w x y V E) (hr : c.Ready w)
    (hok : y c.env w = .ok a w') : w.Evolves c w' := by
  have h := hx.evolves hr
  rwa [Eval.worldAfter_ok hok] at h

namespace Run

variable {r : Recursor} {env : Env} {w w' : World}

/-! ## Rounds -/

/-- The items of a value that a loop can go over. -/
inductive Items (h : Heap) : Value → List Value → Prop
  | array (a : ArrayRef) : Items h (.array a) (h.array a).toList
  | dict (d : DictRef) : Items h (.dict d) (h.dict d).keys.toList
  | string (s : String) :
      Items h (.string s) (s.toList.map fun c => .string (String.ofList [c]))

theorem Items.items? {h : Heap} {v : Value} {us : List Value} (hi : Items h v us) :
    Run.items? h v = some us := by
  cases hi <;> rfl

/-- The body ended so that the loop goes on. -/
def GoesOn (flow : Flow) : Prop := flow = .normal ∨ flow = .continued

theorem GoesOn.loopEnd? {flow : Flow} (h : GoesOn flow) : Run.loopEnd? flow = none := by
  rcases h with rfl | rfl <;> rfl

/-- A round of a loop: in the given scope the name is bound to a copy of the value, which
is made in this world and consists of new containers, and then the body is executed. -/
structure Round (r : Recursor) (env : Env) (scope : ScopeRef) (span : Span) (name : String)
    (body : Block) (v : Value) (w w' : World) : Prop where
  stands : env.scopeIn w = scope
  fresh : Heap.Copied w.interpreters.size w.heap [(Heap.copy v w.heap).1] (Heap.copy v w.heap).2
  executed : ∃ w₁ flow, Eval.bindCopy span name v env w = .ok () w₁ ∧
    w₁.heap.binding? scope name = some (Heap.copy v w.heap).1 ∧
    r.block body env w₁ = .ok flow w' ∧ GoesOn flow

/-- In the rounds to which a loop comes, its name is no constant, and its body ends
normally or with `CONTINUE`. -/
structure Undisturbed (r : Recursor) (env : Env) (span : Span) (name : String) (body : Block)
    (us : List Value) (w : World) : Prop where
  free : ∀ v vs w', Rounds r env span name body us w (v :: vs) w' →
    w'.heap.isConstant (env.scopeIn w') name = false
  goesOn : ∀ v vs w' w₁, Rounds r env span name body us w (v :: vs) w' →
    Eval.bindCopy span name v env w' = .ok () w₁ →
    ∃ flow w₂, r.block body env w₁ = .ok flow w₂ ∧ GoesOn flow

theorem Undisturbed.nil {span : Span} {name : String} {body : Block} (w : World) :
    Undisturbed r env span name body [] w :=
  ⟨fun _ _ _ h => (nomatch h), fun _ _ _ _ h => (nomatch h)⟩

/-- A loop is not disturbed if its first round is possible and the others are not
disturbed. -/
theorem Undisturbed.cons {span : Span} {name : String} {body : Block} {v : Value} {vs : List Value}
    {flow : Flow} {w₁ w₂ : World} (hn : w.heap.isConstant (env.scopeIn w) name = false)
    (hbind : Eval.bindCopy span name v env w = .ok () w₁)
    (hblock : r.block body env w₁ = .ok flow w₂) (hflow : GoesOn flow)
    (h : Undisturbed r env span name body vs w₂) :
    Undisturbed r env span name body (v :: vs) w where
  free u us w' hrounds := by
    cases hrounds with
    | refl => exact hn
    | round hbind' hblock' _ hrest =>
        cases hbind.symm.trans hbind'
        cases hblock.symm.trans hblock'
        exact h.free u us w' hrest
  goesOn u us w' w₁' hrounds hround := by
    cases hrounds with
    | refl =>
        cases hbind.symm.trans hround
        exact ⟨flow, w₂, hblock, hflow⟩
    | round hbind' hblock' _ hrest =>
        cases hbind.symm.trans hbind'
        cases hblock.symm.trans hblock'
        exact h.goesOn u us w' w₁' hrest hround

/-- Makes the rounds of a loop, and tells whether it is not disturbed in them. -/
def undisturbed (r : Recursor) (env : Env) (span : Span) (name : String) (body : Block) :
    List Value → World → Bool
  | [], _ => true
  | v :: vs, w =>
    !w.heap.isConstant (env.scopeIn w) name &&
      match Eval.bindCopy span name v env w with
      | .ok () w₁ =>
        match r.block body env w₁ with
        | .ok .normal w₂ | .ok .continued w₂ => undisturbed r env span name body vs w₂
        | _ => false
      | .error _ _ => false

theorem Undisturbed.of_undisturbed {span : Span} {name : String} {body : Block} :
    ∀ {us : List Value} {w : World}, undisturbed r env span name body us w = true →
      Undisturbed r env span name body us w
  | [], w, _ => .nil w
  | v :: vs, w, h => by
    rw [undisturbed, Bool.and_eq_true, Bool.not_eq_true'] at h
    obtain ⟨hn, h⟩ := h
    split at h
    next w₁ hbind =>
      split at h
      next w₂ hblock => exact .cons hn hbind hblock (.inl rfl) (.of_undisturbed h)
      next w₂ hblock => exact .cons hn hbind hblock (.inr rfl) (.of_undisturbed h)
      next => cases h
    next => cases h

/-- A name that is no constant is bound to a copy. -/
theorem bindCopy_ok (span : Span) {name : String} (v : Value)
    (hs : (env.scopeIn w).index < w.heap.scopes.size)
    (hn : w.heap.isConstant (env.scopeIn w) name = false) :
    ∃ w₁, Eval.bindCopy span name v env w = .ok () w₁ ∧
      w₁.heap.binding? (env.scopeIn w) name = some (Heap.copy v w.heap).1 := by
  let w₀ : World := { w with heap := (Heap.copy v w.heap).2 }
  have hscopes : w₀.heap.scopes = w.heap.scopes := Heap.scopes_copy v w.heap
  have hn₀ : w₀.heap.isConstant (env.scopeIn w) name = false :=
    (Stores.isConstant_congr hscopes _ _).trans hn
  obtain ⟨w₁, hdefine, hheap, -⟩ :=
    Eval.define_eq (env.scopeIn w) name (Heap.copy v w.heap).1 false env w₀
  rw [← Eval.assign_eq_define hn₀] at hdefine
  refine ⟨w₁, (Eval.bind_ok (Eval.copy_eq v env w) _).trans (Eval.tryCatch_ok hdefine _), ?_⟩
  rw [hheap]
  exact Heap.binding?_bind_self (hscopes ▸ hs) name _ false

section Valid

variable {n : Nat} {span : Span} {name : String} {body : Block} {stack : List InterpreterId}

/-- A step of a loop that is not disturbed: it makes a round, and from there on it is not
disturbed either. -/
theorem Undisturbed.round {v : Value} {vs : List Value} {w₀ : World}
    (h : Undisturbed (run n) env span name body (v :: vs) w)
    (hr : (Context.valid stack env w₀).Ready w₀) (he : w₀.Evolves (Context.valid stack env w₀) w)
    (hv : (Context.valid stack env w₀).AllGood w (v :: vs)) :
    ∃ w', Round (run n) env (env.scopeIn w₀) span name body v w w' ∧
      Undisturbed (run n) env span name body vs w' ∧
      w₀.Evolves (Context.valid stack env w₀) w' ∧
      (Context.valid stack env w₀).AllGood w' vs ∧
      eachLoop (run n) span name body (v :: vs) env w = eachLoop (run n) span name body vs env w' := by
  obtain ⟨hscope, hthere⟩ := he.scopeIn_valid hr
  have hrw := he.ready hr
  obtain ⟨w₁, hbind, hbound⟩ := bindCopy_ok span v hthere (h.free v vs w .refl)
  obtain ⟨flow, w₂, hblock, hflow⟩ := h.goesOn v vs w w₁ .refl hbind
  have hevolves : w.Evolves (Context.valid stack env w₀) w₂ := by
    have hfirst : w.Evolves (Context.valid stack env w₀) w₁ :=
      (safe_bindCopy Context.stands_valid span name (hv v List.mem_cons_self)).evolves_ok hrw hbind
    have hsecond : w₁.Evolves (Context.valid stack env w₀) w₂ :=
      ((carries_run Context.open_valid n).block Context.stands_valid body).evolves_ok
        (hfirst.ready hrw) hblock
    exact hfirst.trans hsecond
  have hsteps : ∀ {us : List Value} {w' : World}, Rounds (run n) env span name body vs w₂ us w' →
      Rounds (run n) env span name body (v :: vs) w us w' :=
    fun hrest => .round hbind hblock hflow.loopEnd? hrest
  refine ⟨w₂, ⟨hscope, (hrw.sound trivial).copy (hv v List.mem_cons_self trivial),
    w₁, flow, hbind, hscope ▸ hbound, hblock, hflow⟩, ?_, he.trans hevolves, ?_,
    (hsteps .refl).eachLoop_eq⟩
  · exact ⟨fun u us w' hrest => h.free u us w' (hsteps hrest),
      fun u us w' w₁ hrest => h.goesOn u us w' w₁ (hsteps hrest)⟩
  · exact hevolves.allGood hrw fun u hu => hv u (List.mem_cons_of_mem v hu)

/-- A loop that is not disturbed makes a round for each of its values, in their order, and
ends normally. -/
theorem Undisturbed.rounds {w₀ : World} (hr : (Context.valid stack env w₀).Ready w₀) :
    ∀ {vs : List Value} {w : World}, Undisturbed (run n) env span name body vs w →
      w₀.Evolves (Context.valid stack env w₀) w → (Context.valid stack env w₀).AllGood w vs →
      ∃ starts : Nat → World, starts 0 = w ∧
        (∀ k (hk : k < vs.length),
          Round (run n) env (env.scopeIn w₀) span name body vs[k] (starts k) (starts (k + 1))) ∧
        eachLoop (run n) span name body vs env w = .ok .normal (starts vs.length)
  | [], w, _, _, _ => ⟨fun _ => w, rfl, fun k hk => absurd hk (Nat.not_lt_zero k), rfl⟩
  | v :: vs, w, h, he, hv => by
      obtain ⟨w', hround, hrest, he', hv', hloop⟩ := h.round hr he hv
      obtain ⟨starts, rfl, hrounds, hend⟩ := hrest.rounds hr he' hv'
      refine ⟨Nat.rec w fun k _ => starts k, rfl, ?_, hloop.trans hend⟩
      rintro (_ | k) hk
      · exact hround
      · exact hrounds k (Nat.lt_of_succ_lt_succ hk)

theorem exists_ready {w₀ : World} (hv : env.Valid w₀) :
    ∃ stack, (Context.valid stack env w₀).Ready w₀ :=
  let ⟨stack, hstack⟩ := hv.counted
  ⟨stack, Context.ready_valid hv hstack⟩

end Valid

end Run

/-! ## Loops over items -/

open Run in
/-- A loop over an array, a dictionary or a string goes over the items that this has when
the loop starts: it makes one round for each of them, in their order, whatever the body
does to what it goes over or to the name. -/
theorem forEach_goes_over_snapshot {n : Nat} {env : Env} {w w₁ : World} (hv : env.Valid w)
    {span : Span} {name : String} {iterable : Expr} {body : Block} {v : Value} {us : List Value}
    (hiterable : (run n).expr iterable env w = .ok v w₁) (hitems : Items w₁.heap v us)
    (h : Undisturbed (run n) env span name body us w₁) :
    ∃ starts : Nat → World, starts 0 = w₁ ∧
      (∀ k (hk : k < us.length),
        Round (run n) env (env.scopeIn w) span name body us[k] (starts k) (starts (k + 1))) ∧
      forEach (run n) span name iterable body env w = .ok .normal (starts us.length) := by
  obtain ⟨stack, hr⟩ := exists_ready hv
  have hevolves : w.Evolves (Context.valid stack env w) w₁ :=
    ((carries_run Context.open_valid n).expr iterable).evolves_ok hr hiterable
  have hgood : (Context.valid stack env w).AllGood w₁ us := fun u hu hc =>
    within_items? ((hevolves.ready hr).closed hc) hitems.items? u hu
  obtain ⟨starts, hstart, hrounds, hend⟩ := h.rounds hr hevolves hgood
  have hlook : (Eval.inHeap (items? · v)) env w₁ = .ok (some us) w₁ :=
    congrArg (EStateM.Result.ok · w₁) hitems.items?
  exact ⟨starts, hstart, hrounds,
    (Eval.bind_ok hiterable _).trans ((Eval.bind_ok hlook _).trans hend)⟩

open Run in
/-- A loop over an array of two numbers, whose body appends every one of them to the array. -/
theorem forEach_goes_over_growing :
    let s := ((Session.start default).answer Session.machine (.run "a ← [1, 2]")).2
    let env : Env := ⟨s.setup, Session.main⟩
    let w := s.world
    let a : Expr := .var .nowhere "a" []
    let body : Block := .mk .nowhere
      [.expr (.call .nowhere (.var .nowhere "a" [.property .nowhere "append"])
        [.var .nowhere "x" []])]
    ∃ r w₁, (run 20).expr a env w = .ok (.array r) w₁ ∧ (w₁.heap.array r).size = 2 ∧
      ∃ starts : Nat → World, starts 0 = w₁ ∧
        (∀ k (hk : k < (w₁.heap.array r).toList.length), Round (run 20) env (env.scopeIn w) .nowhere "x"
          body (w₁.heap.array r).toList[k] (starts k) (starts (k + 1))) ∧
        forEach (run 20) .nowhere "x" a body env w = .ok .normal (starts 2) ∧
        ((starts 2).heap.array r).size = 4 := by
  intro s env w a body
  have hreached : s.Reachable := .answer (.run "a ← [1, 2]") (.start default) (List.forall_mem_nil _)
  have hvalid : env.Valid w := hreached.ready.valid trivial
  have hcheck : ((run 20).expr a).succeeds env w (fun v w₁ =>
      decide (v.container? = some (.array ⟨1⟩)) && decide ((w₁.heap.array ⟨1⟩).size = 2) &&
        undisturbed (run 20) env .nowhere "x" body (w₁.heap.array ⟨1⟩).toList w₁ &&
        decide ((((forEach (run 20) .nowhere "x" a body).worldAfter env w).heap.array ⟨1⟩).size = 4))
      = true := by decide +kernel
  obtain ⟨v, w₁, hiterable, hall⟩ := Eval.exists_of_succeeds hcheck
  simp only [Bool.and_eq_true, decide_eq_true_eq] at hall
  obtain ⟨⟨⟨hv, hsize⟩, hloop⟩, hfinal⟩ := hall
  obtain rfl := Value.eq_array_of_container? hv
  obtain ⟨starts, hstart, hrounds, hend⟩ :=
    forEach_goes_over_snapshot hvalid hiterable (.array ⟨1⟩) (Undisturbed.of_undisturbed hloop)
  rw [Array.length_toList, hsize] at hend
  rw [Eval.worldAfter_ok hend] at hfinal
  exact ⟨⟨1⟩, w₁, hiterable, hsize, starts, hstart, hrounds, hend, hfinal⟩

/-! ## Loops over ranges -/

namespace Run

/-- A number of steps stays within a range. -/
def Within (first last step : Int) (j : Nat) : Prop :=
  (0 < step ∧ first + j * step ≤ last) ∨ (step < 0 ∧ last ≤ first + j * step)

instance (first last step : Int) (j : Nat) : Decidable (Within first last step j) :=
  inferInstanceAs (Decidable (_ ∨ _))

theorem steps_le_iff {distance step : Int} (hstep : 0 < step) (hdistance : 0 ≤ distance) (j : Nat) :
    j < (distance / step).toNat + 1 ↔ j * step ≤ distance := by
  have hquotient : 0 ≤ distance / step := Int.ediv_nonneg hdistance hstep.le
  rw [← Int.le_ediv_iff_mul_le hstep]
  omega

/-- The number of values of a range is the number of steps that stay within it. -/
theorem lt_rangeCount_iff {first last step : Int} (hstep : step ≠ 0) (j : Nat) :
    j < rangeCount first last step ↔ Within first last step j := by
  rw [rangeCount, Within]
  rcases lt_or_gt_of_ne hstep with hneg | hpos
  · have hdown : ¬ 0 < step := by omega
    have hmul : (j : Int) * -step = -(j * step) := Int.mul_neg _ _
    rw [if_neg hdown]
    split
    next h =>
      rw [steps_le_iff (by omega) (by omega), hmul]
      omega
    next h =>
      have : (j : Int) * step ≤ 0 := Int.mul_nonpos_of_nonneg_of_nonpos (by omega) hneg.le
      omega
  · rw [if_pos hpos]
    split
    next h =>
      rw [steps_le_iff hpos (by omega)]
      omega
    next h =>
      have : 0 ≤ (j : Int) * step := Int.mul_nonneg (by omega) hpos.le
      omega

/-- The values of a range are its start and what steps lead to. -/
theorem rangeValues_eq (step : Int) : ∀ (count : Nat) (first : Int),
    rangeValues step count first = (List.range count).map fun j => .int (first + j * step)
  | 0, _ => rfl
  | count + 1, first => by
      rw [rangeValues, rangeValues_eq step count, List.range_succ_eq_map, List.map_cons,
        List.map_map]
      refine congrArg₂ List.cons (by simp) (List.map_congr_left fun j _ => ?_)
      simp [Int.add_mul, Int.add_assoc, Int.add_comm step]

/-- The step of a range: 1 if none is written. -/
inductive Steps (r : Recursor) (env : Env) : Option Expr → Int → World → World → Prop
  | default {w : World} : Steps r env none 1 w w
  | written {e : Expr} {k : Int} {w w' : World} : r.expr e env w = .ok (.int k) w' →
      Steps r env (some e) k w w'

variable {r : Recursor} {env : Env} {w w' : World} {k : Int}

theorem bound_eq {e : Expr} (h : r.expr e env w = .ok (.int k) w') (hk : Value.inRange k = true)
    (what : String) : bound r e what env w = .ok k w' := by
  refine (Eval.bind_ok h _).trans ?_
  change EStateM.Result.ok (Int64.ofInt k).toInt w' = _
  rw [Word.toInt_ofInt hk]

theorem Steps.stepBound_eq {step : Option Expr} (h : Steps r env step k w w')
    (hk : Value.inRange k = true) (hne : k ≠ 0) : stepBound r step env w = .ok k w' := by
  cases h with
  | default => rfl
  | written h =>
      refine (Eval.bind_ok (bound_eq h hk "step") _).trans ?_
      rw [if_neg hne]
      rfl

end Run

open Run in
/-- A loop over a range makes a round for each number that steps lead to from the start
without passing the end, in their order and counted without bounds, whatever the body does
to the name or to the names in the bounds: the counter never wraps around. -/
theorem forRange_goes_over_range {n : Nat} {env : Env} {w w₁ w₂ w₃ : World} (hv : env.Valid w)
    {span : Span} {name : String} {first last : Expr} {step : Option Expr} {body : Block}
    {a b k : Int} (ha : Value.inRange a = true) (hb : Value.inRange b = true)
    (hk : Value.inRange k = true) (hne : k ≠ 0)
    (hfirst : (run n).expr first env w = .ok (.int a) w₁)
    (hlast : (run n).expr last env w₁ = .ok (.int b) w₂) (hstep : Steps (run n) env step k w₂ w₃) :
    ∃ count : Nat, (∀ j : Nat, j < count ↔ Within a b k j) ∧
      (Undisturbed (run n) env span name body
          ((List.range count).map fun j : Nat => .int (a + j * k)) w₃ →
        ∃ starts : Nat → World, starts 0 = w₃ ∧
          (∀ j < count, Round (run n) env (env.scopeIn w) span name body (.int (a + j * k))
            (starts j) (starts (j + 1))) ∧
          forRange (run n) span name first last step body env w = .ok .normal (starts count)) := by
  refine ⟨rangeCount a b k, lt_rangeCount_iff hne, fun h => ?_⟩
  obtain ⟨stack, hr⟩ := exists_ready hv
  have hcarries := carries_run (c := Context.valid stack env w) Context.open_valid n
  have hevolves : w.Evolves (Context.valid stack env w) w₃ := by
    have h₁ : w.Evolves (Context.valid stack env w) w₁ := (hcarries.expr first).evolves_ok hr hfirst
    have h₂ := h₁.trans ((hcarries.expr last).evolves_ok (h₁.ready hr) hlast)
    exact h₂.trans ((safe_stepBound hcarries step).evolves_ok (h₂.ready hr)
      (hstep.stepBound_eq hk hne))
  obtain ⟨starts, hstart, hrounds, hend⟩ := h.rounds hr hevolves fun u hu _ => by
    obtain ⟨j, -, rfl⟩ := List.mem_map.mp hu
    trivial
  rw [List.length_map, List.length_range] at hend
  refine ⟨starts, hstart, fun j hj => ?_, ?_⟩
  · have hround := hrounds j (by rwa [List.length_map, List.length_range])
    rwa [List.getElem_map, List.getElem_range] at hround
  · refine (Eval.bind_ok (bound_eq hfirst ha "start") _).trans
      ((Eval.bind_ok (bound_eq hlast hb "end") _).trans
        ((Eval.bind_ok (hstep.stepBound_eq hk hne) _).trans ?_))
    rw [rangeLoop_ofInt ha hb ⟨hk, hne⟩, rangeValues_eq]
    exact hend

open Run in
/-- The last two integers. -/
theorem forRange_goes_to_the_end :
    ∃ starts : Nat → World, starts 0 = Session.rootedWorld default ∧
      (∀ j : Nat, j < 2 → Round (run 9) ⟨(default : Session.Options).setup, Session.main⟩ ⟨0⟩ .nowhere "i"
        (.mk .nowhere []) (.int (9223372036854775806 + j * 1)) (starts j) (starts (j + 1))) ∧
      forRange (run 9) .nowhere "i" (.int .nowhere 9223372036854775806)
          (.int .nowhere 9223372036854775807) none (.mk .nowhere [])
          ⟨(default : Session.Options).setup, Session.main⟩ (Session.rootedWorld default) =
        .ok .normal (starts 2) := by
  have hvalid := (Session.ready_rooted default).valid trivial
  obtain ⟨count, hcount, hloop⟩ := @forRange_goes_over_range 9 _ _ _ _ _ hvalid .nowhere "i"
    (.int .nowhere 9223372036854775806) (.int .nowhere 9223372036854775807) none (.mk .nowhere [])
    _ _ 1 (by decide) (by decide) (by decide) Int.one_ne_zero rfl rfl .default
  have htwo : count = 2 := by
    have hone := (hcount 1).mpr (.inl (by decide))
    have hmore := mt (hcount 2).mp (by decide)
    omega
  subst htwo
  exact hloop (.cons rfl rfl rfl (.inl rfl) (.cons rfl rfl rfl (.inl rfl) (.nil _)))

end Pseudocode
