import NetBalance.Log.Event

/-! # Computations that tell what they do

    A computation ends with a value or an error, and in both cases leaves the
    events that it met, in order.  An error keeps the events before it. -/

namespace NetBalance

section Except

variable {ε α β γ : Type}

@[simp] theorem ok_bind (a : α) (f : α → Except ε β) : (Except.ok a >>= f) = f a := rfl

@[simp] theorem error_bind (e : ε) (f : α → Except ε β) : (Except.error e >>= f) = .error e := rfl

@[simp] theorem ok_mapError {ε' : Type} (a : α) (f : ε → ε') :
    (Except.ok a).mapError f = .ok a := rfl

@[simp] theorem error_mapError {ε' : Type} (e : ε) (f : ε → ε') :
    (Except.error e : Except ε α).mapError f = .error (f e) := rfl

/-- Two steps end well exactly when both do. -/
theorem bind_eq_ok {m : Except ε α} {f : α → Except ε β} {b : β} :
    (m >>= f) = .ok b ↔ ∃ a, m = .ok a ∧ f a = .ok b := by
  cases m with
  | error e => simp
  | ok a => simp

theorem map_eq_ok {m : Except ε α} {f : α → β} {b : β} :
    m.map f = .ok b ↔ ∃ a, m = .ok a ∧ f a = b := by
  cases m with
  | error e => simp [Except.map]
  | ok a => simp [Except.map]

theorem map_eq_error {m : Except ε α} {f : α → β} {e : ε} : m.map f = .error e ↔ m = .error e := by
  cases m with
  | error e => simp [Except.map]
  | ok a => simp [Except.map]

/-- Two steps fail where the first fails, or the second behind what the first returns. -/
theorem bind_eq_error {m : Except ε α} {f : α → Except ε β} {e : ε} :
    (m >>= f) = .error e ↔ m = .error e ∨ ∃ a, m = .ok a ∧ f a = .error e := by
  cases m with
  | error e => simp
  | ok a => simp

theorem mapError_eq_ok {ε' : Type} {m : Except ε α} {f : ε → ε'} {a : α} :
    m.mapError f = .ok a ↔ m = .ok a := by
  cases m with
  | error e => simp
  | ok b => simp

theorem mapError_eq_error {ε' : Type} {m : Except ε α} {f : ε → ε'} {e : ε'} :
    m.mapError f = .error e ↔ ∃ cause, m = .error cause ∧ f cause = e := by
  cases m with
  | error cause => simp
  | ok a => simp

theorem toOption_eq_some {m : Except ε α} {a : α} : m.toOption = some a ↔ m = .ok a := by
  cases m with
  | error e => simp [Except.toOption]
  | ok b => simp [Except.toOption]

theorem map_bind {m : Except ε α} {f : α → Except ε β} {g : β → γ} :
    (m >>= f).map g = m >>= fun a => (f a).map g := by
  cases m <;> rfl

/-- Where two steps fail alike or return values that are alike, and what follows is the same for
    such values, the whole is the same. -/
theorem bind_congr_of_map {m m' : Except ε α} {f f' : α → Except ε β} {g : α → γ}
    (hm : m.map g = m'.map g) (hf : ∀ a a', g a = g a' → f a = f' a') : m >>= f = m' >>= f' := by
  cases m with
  | error e =>
    have hm' : m' = .error e := map_eq_error.1 hm.symm
    rw [hm']
    rfl
  | ok a =>
    obtain ⟨a', rfl, ha⟩ := map_eq_ok.1 hm.symm
    exact hf a a' ha.symm

/-- A step for each entry of a list ends well exactly when each of the steps does. -/
theorem mapM_eq_ok {f : α → Except ε β} {xs : List α} {ys : List β} :
    xs.mapM f = .ok ys ↔ xs.map f = ys.map .ok := by
  induction xs generalizing ys with
  | nil => cases ys <;> simp [pure, Except.pure]
  | cons x xs ih =>
    simp only [List.mapM_cons, bind_eq_ok, ih, pure, Except.pure, Except.ok.injEq]
    constructor
    · rintro ⟨y, hy, ys, hys, rfl⟩
      simp only [List.map_cons, hy, hys]
    · intro h
      cases ys with
      | nil => simp at h
      | cons y ys =>
        rw [List.map_cons, List.map_cons, List.cons.injEq] at h
        exact ⟨y, h.1, ys, h.2, rfl⟩

theorem exists_map_eq_ok {f : α → Except ε β} {xs : List α} :
    (∃ ys : List β, xs.map f = ys.map .ok) ↔ ∀ x ∈ xs, ∃ y, f x = .ok y := by
  constructor
  · rintro ⟨ys, hys⟩ x hx
    have hmem : f x ∈ ys.map .ok := hys ▸ List.mem_map_of_mem hx
    obtain ⟨y, -, hy⟩ := List.mem_map.1 hmem
    exact ⟨y, hy.symm⟩
  · intro h
    induction xs with
    | nil => exact ⟨[], rfl⟩
    | cons x xs ih =>
      obtain ⟨y, hy⟩ := h x List.mem_cons_self
      obtain ⟨ys, hys⟩ := ih fun x' hx' => h x' (List.mem_cons_of_mem x hx')
      exact ⟨y :: ys, by rw [List.map_cons, List.map_cons, hy, hys]⟩

theorem eq_filterMap_of_map_ok {f : α → Except ε β} {xs : List α} {ys : List β}
    (h : xs.map f = ys.map .ok) : ys = xs.filterMap fun x => (f x).toOption := by
  have hys : (ys.map (.ok : β → Except ε β)).filterMap Except.toOption = ys := by
    rw [List.filterMap_map]
    exact List.filterMap_some
  rw [← hys, ← h, List.filterMap_map]
  rfl

/-- A row of steps fails where one of them does. -/
theorem exists_of_mapM_error {f : α → Except ε β} {xs : List α} {e : ε}
    (h : xs.mapM f = .error e) : ∃ x ∈ xs, f x = .error e := by
  induction xs with
  | nil => cases h
  | cons x xs ih =>
    rw [List.mapM_cons, bind_eq_error] at h
    rcases h with h | ⟨y, -, h⟩
    · exact ⟨x, List.mem_cons_self, h⟩
    · rcases bind_eq_error.1 h with h | ⟨ys, -, h⟩
      · obtain ⟨x', hx', h⟩ := ih h
        exact ⟨x', List.mem_cons_of_mem x hx', h⟩
      · cases h

theorem mapM_congr_left {f g : α → Except ε β} {xs : List α} (h : ∀ x ∈ xs, f x = g x) :
    xs.mapM f = xs.mapM g := by
  induction xs with
  | nil => rfl
  | cons x xs ih =>
    rw [List.forall_mem_cons] at h
    rw [List.mapM_cons, List.mapM_cons, h.1, ih h.2]

/-- What is made of the results of a step for each entry can be made of each of them at once. -/
theorem mapM_map_eq (f : α → Except ε β) (g : β → γ) (xs : List α) :
    (xs.mapM fun x => (f x).map g) = (xs.mapM f).map (List.map g) := by
  induction xs with
  | nil => rfl
  | cons x xs ih =>
    rw [List.mapM_cons, List.mapM_cons, ih]
    cases f x with
    | error e => rfl
    | ok y =>
      cases xs.mapM f with
      | error e => rfl
      | ok ys => rfl

end Except

/-- A value or an error, with the events on the way there. -/
structure Logged (K ε α : Type) where
  events : List (Event K)
  result : Except ε α

namespace Logged

variable {K ε α β : Type}

/-- Tell one event. -/
def tell (e : Event K) : Logged K ε Unit := ⟨[e], .ok ()⟩

/-- Tell several events. -/
def tellAll (es : List (Event K)) : Logged K ε Unit := ⟨es, .ok ()⟩

/-- A silent computation. -/
def ofExcept (r : Except ε α) : Logged K ε α := ⟨[], r⟩

def fail (e : ε) : Logged K ε α := ⟨[], .error e⟩

protected def bind (m : Logged K ε α) (f : α → Logged K ε β) : Logged K ε β :=
  match m.result with
  | .ok a => ⟨m.events ++ (f a).events, (f a).result⟩
  | .error e => ⟨m.events, .error e⟩

instance : Monad (Logged K ε) where
  pure a := ⟨[], .ok a⟩
  bind := Logged.bind

/-- Put an error into a larger family of errors. -/
def mapError {ε' : Type} (f : ε → ε') (m : Logged K ε α) : Logged K ε' α :=
  ⟨m.events, m.result.mapError f⟩

@[simp] theorem pure_events (a : α) : (pure a : Logged K ε α).events = [] := rfl

@[simp] theorem pure_result (a : α) : (pure a : Logged K ε α).result = .ok a := rfl

theorem bind_ok {m : Logged K ε α} {f : α → Logged K ε β} {a : α} (h : m.result = .ok a) :
    m >>= f = ⟨m.events ++ (f a).events, (f a).result⟩ := by
  show Logged.bind m f = _
  simp [Logged.bind, h]

theorem bind_error {m : Logged K ε α} {f : α → Logged K ε β} {e : ε} (h : m.result = .error e) :
    m >>= f = ⟨m.events, .error e⟩ := by
  show Logged.bind m f = _
  simp [Logged.bind, h]

theorem bind_bind (m : Logged K ε α) (f : α → Logged K ε β) {γ : Type} (g : β → Logged K ε γ) :
    m >>= f >>= g = m >>= fun a => f a >>= g := by
  obtain ⟨es, (e | a)⟩ := m
  · rfl
  · show Logged.bind (Logged.bind _ _) _ = Logged.bind _ fun a => Logged.bind _ _
    cases h : (f a).result <;> simp [Logged.bind, h]

instance : LawfulMonad (Logged K ε) := LawfulMonad.mk' _
  (by
    rintro α ⟨es, (e | a)⟩
    · rfl
    · show Logged.bind _ _ = _
      simp [Logged.bind])
  (by
    intro α β a f
    rw [bind_ok rfl]
    simp)
  (fun m f g => bind_bind m f g)

/-! ### Results

    What a computation returns does not depend on the events on the way, so that a result can be
    followed through the steps without them. -/

@[simp] theorem tell_result (e : Event K) : (tell e : Logged K ε Unit).result = .ok () := rfl

@[simp] theorem tellAll_result (es : List (Event K)) :
    (tellAll es : Logged K ε Unit).result = .ok () := rfl

@[simp] theorem ofExcept_result (r : Except ε α) : (ofExcept r : Logged K ε α).result = r := rfl

@[simp] theorem fail_result (e : ε) : (fail e : Logged K ε α).result = .error e := rfl

@[simp] theorem bind_result (m : Logged K ε α) (f : α → Logged K ε β) :
    (m >>= f).result = m.result >>= fun a => (f a).result := by
  show (Logged.bind m f).result = _
  cases h : m.result <;> simp [Logged.bind, h, bind, Except.bind]

@[simp] theorem map_result (f : α → β) (m : Logged K ε α) :
    (f <$> m).result = m.result.map f := by
  rw [map_eq_pure_bind, bind_result]
  cases m.result <;> rfl

end Logged

end NetBalance
