import Linewise.Grammar.Build

/-!
# How a computation ends

A `Building` computation begins in a state. It ends in a state as well, with a value or with an
error. `Building.runOn` is both at once, with one equation for each way to make a computation.

`Building.Meets` says of a computation what holds where it ends: one condition for the value and the
state of a success, another for the error and the state of a failure. Most statements about building
are of this form, and are put together along the computation by `Meets.bind`.

`Building.Keeps` is the special case of a condition on the state alone that holds before and after,
whatever the end.
-/

namespace Linewise
namespace Building

variable {σ α β : Type}

/-! ## Ends -/

/-- How a computation ends that begins in the state `s`. -/
def runOn (x : Building σ α) (s : σ) : Except Error α × σ := x.run.run s

@[simp] theorem runOn_pure (a : α) (s : σ) : runOn (pure a) s = (.ok a, s) := rfl

@[simp] theorem runOn_throw (e : Error) (s : σ) :
    runOn (throw e : Building σ α) s = (.error e, s) := rfl

@[simp] theorem runOn_get (s : σ) : runOn (get : Building σ σ) s = (.ok s, s) := rfl

@[simp] theorem runOn_modify (f : σ → σ) (s : σ) :
    runOn (modify f : Building σ PUnit) s = (.ok ⟨⟩, f s) := rfl

@[simp] theorem runOn_lift (x : Except Error α) (s : σ) : runOn (lift x) s = (x, s) := rfl

@[simp] theorem runOn_mapError (f : Error → Error) (x : Building σ α) (s : σ) :
    runOn (mapError f x) s = ((x.runOn s).1.mapError f, (x.runOn s).2) := rfl

variable {x : Building σ α} {f : α → Building σ β} {s t : σ}

theorem runOn_bind_of_ok {a : α} (hx : x.runOn s = (.ok a, t)) :
    (x >>= f).runOn s = (f a).runOn t := by
  change (x.run.run s) = _ at hx
  simp only [runOn, ExceptT.run_bind, StateT.run_bind]
  rw [hx]
  rfl

theorem runOn_bind_of_error {e : Error} (hx : x.runOn s = (.error e, t)) :
    (x >>= f).runOn s = (.error e, t) := by
  change (x.run.run s) = _ at hx
  simp only [runOn, ExceptT.run_bind, StateT.run_bind]
  rw [hx]
  rfl

theorem runOn_get_bind (f : σ → Building σ β) (s : σ) :
    (get >>= f).runOn s = (f s).runOn s := rfl

theorem runOn_modify_bind (g : σ → σ) (f : PUnit → Building σ β) (s : σ) :
    (modify g >>= f).runOn s = (f ⟨⟩).runOn (g s) := rfl

/-- What a computation answers, with the state that it ends in. -/
theorem runOn_eq_of_fst_eq {result : Except Error α} (h : (x.runOn s).1 = result) :
    x.runOn s = (result, (x.runOn s).2) := Prod.ext h rfl

/-- What comes behind does not matter if the first parts end alike. -/
theorem runOn_bind_congr {y : Building σ α} (h : x.runOn s = y.runOn s) :
    (x >>= f).runOn s = (y >>= f).runOn s := by
  match hx : x.runOn s with
  | (.ok a, t) => rw [runOn_bind_of_ok hx, runOn_bind_of_ok (h.symm.trans hx)]
  | (.error e, t) => rw [runOn_bind_of_error hx, runOn_bind_of_error (h.symm.trans hx)]

/-- Computations without a state can be taken together. -/
theorem lift_bind (y : Except Error α) (g : α → Except Error β) :
    (lift (y >>= g) : Building σ β) = lift y >>= fun a => lift (g a) := by
  cases y with
  | ok a => rfl
  | error e => rfl

/-! ## What holds at the end -/

/-- What holds at the end of a computation that begins in the state `s`: `post` where it succeeds,
`fail` where it does not. -/
def Meets (x : Building σ α) (s : σ) (post : α → σ → Prop) (fail : Error → σ → Prop) : Prop :=
  match x.runOn s with
  | (.ok a, t) => post a t
  | (.error e, t) => fail e t

variable {post post' : α → σ → Prop} {fail fail' : Error → σ → Prop}

theorem meets_iff : x.Meets s post fail ↔
    (∀ a t, x.runOn s = (.ok a, t) → post a t) ∧
      ∀ e t, x.runOn s = (.error e, t) → fail e t := by
  rw [Meets]
  match hx : x.runOn s with
  | (.ok a, t) => simp
  | (.error e, t) => simp

theorem Meets.ok (h : x.Meets s post fail) {a : α} (hx : x.runOn s = (.ok a, t)) : post a t :=
  (meets_iff.mp h).1 a t hx

theorem Meets.error (h : x.Meets s post fail) {e : Error} (hx : x.runOn s = (.error e, t)) :
    fail e t :=
  (meets_iff.mp h).2 e t hx

/-- Less is asked for. -/
theorem Meets.imp (h : x.Meets s post fail) (hpost : ∀ a t, post a t → post' a t)
    (hfail : ∀ e t, fail e t → fail' e t) : x.Meets s post' fail' :=
  meets_iff.mpr ⟨fun a t hx => hpost a t (h.ok hx), fun e t hx => hfail e t (h.error hx)⟩

/-- The second part of a sequence begins where the first one ends. -/
theorem Meets.bind {post : β → σ → Prop} {middle : α → σ → Prop} (hx : x.Meets s middle fail)
    (hf : ∀ a t, middle a t → (f a).Meets t post fail) : (x >>= f).Meets s post fail := by
  match h : x.runOn s with
  | (.ok a, t) =>
    rw [Meets, runOn_bind_of_ok h]
    exact hf a t (hx.ok h)
  | (.error e, t) =>
    rw [Meets, runOn_bind_of_error h]
    exact hx.error h

theorem meets_pure {a : α} (h : post a s) : (pure a : Building σ α).Meets s post fail := h

theorem meets_throw {e : Error} (h : fail e s) : (throw e : Building σ α).Meets s post fail := h

theorem meets_get_bind {f : σ → Building σ β} {post : β → σ → Prop}
    (h : (f s).Meets s post fail) : (get >>= f).Meets s post fail := h

theorem meets_modify_bind {g : σ → σ} {f : PUnit → Building σ β} {post : β → σ → Prop}
    (h : (f ⟨⟩).Meets (g s) post fail) : (modify g >>= f).Meets s post fail := h

theorem meets_lift {y : Except Error α} (hok : ∀ a, y = .ok a → post a s)
    (herror : ∀ e, y = .error e → fail e s) : (lift y).Meets s post fail := by
  cases y with
  | ok a => exact hok a rfl
  | error e => exact herror e rfl

theorem Meets.mapError {g : Error → Error} (h : x.Meets s post fun e t => fail (g e) t) :
    (Building.mapError g x).Meets s post fail := by
  match hx : x.runOn s with
  | (.ok a, t) =>
    rw [Meets, runOn_mapError, hx]
    exact h.ok hx
  | (.error e, t) =>
    rw [Meets, runOn_mapError, hx]
    exact h.error hx

/-! ## What is kept -/

/-- A computation keeps a condition on its state, whether it succeeds or not. -/
def Keeps (p : σ → Prop) (x : Building σ α) : Prop :=
  ∀ s, p s → x.Meets s (fun _ => p) fun _ => p

variable {p : σ → Prop}

theorem keeps_iff : Keeps p x ↔ ∀ s, p s → p (x.runOn s).2 := by
  refine forall₂_congr fun s _ => ?_
  rw [Meets]
  match x.runOn s with
  | (.ok a, t) => exact Iff.rfl
  | (.error e, t) => exact Iff.rfl

theorem Keeps.runOn (h : Keeps p x) (hs : p s) : p (x.runOn s).2 := keeps_iff.mp h s hs

theorem keeps_pure (a : α) : Keeps p (pure a : Building σ α) := fun _ hs => hs

theorem keeps_throw (e : Error) : Keeps p (throw e : Building σ α) := fun _ hs => hs

theorem keeps_lift (y : Except Error α) : Keeps p (lift y : Building σ α) :=
  fun _ hs => meets_lift (fun _ _ => hs) fun _ _ => hs

theorem Keeps.bind (hx : Keeps p x) (hf : ∀ a, Keeps p (f a)) : Keeps p (x >>= f) :=
  fun s hs => (hx s hs).bind fun a t ht => hf a t ht

theorem Keeps.mapM (hf : ∀ a, Keeps p (f a)) (as : List α) : Keeps p (as.mapM f) := by
  induction as with
  | nil =>
    rw [List.mapM_nil]
    exact keeps_pure _
  | cons a as ih =>
    rw [List.mapM_cons]
    exact (hf a).bind fun _ => ih.bind fun _ => keeps_pure _

theorem Keeps.forIn {body : α → β → Building σ (ForInStep β)} (hbody : ∀ a b, Keeps p (body a b))
    (as : List α) (b : β) : Keeps p (forIn as b body) := by
  induction as generalizing b with
  | nil =>
    rw [List.forIn_nil]
    exact keeps_pure _
  | cons a as ih =>
    rw [List.forIn_cons]
    refine (hbody a b).bind fun answer => ?_
    cases answer with
    | done b => exact keeps_pure _
    | yield b => exact ih b

end Building
end Linewise
