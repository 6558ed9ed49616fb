
namespace OiUserland.Lib.Runs

variable {State Op : Type}

/-- Run a list of operations. A step is partial: an operation carries whatever
its environment answers, and `none` means that no next state is defined. -/
def exec (step : Op → State → Option State) : List Op → State → Option State
  | [], s => some s
  | o :: os, s => (step o s).bind (exec step os)

/-- The states visited by runs from `init` all of whose steps meet `ok`. -/
inductive Reachable (step : Op → State → Option State) (ok : Op → State → Prop)
    (init : State → Prop) : State → Prop
  | start {s : State} (h : init s) : Reachable step ok init s
  | next {s s' : State} (o : Op) (h : Reachable step ok init s) (hok : ok o s)
      (hs : step o s = some s') : Reachable step ok init s'

variable {step : Op → State → Option State} {ok : Op → State → Prop} {init : State → Prop}

/-- The invariant rule: what holds at the start and is kept by every permitted
step holds in every state a run visits. -/
theorem Reachable.invariant {s : State} (h : Reachable step ok init s) (Inv : State → Prop)
    (hinit : ∀ s, init s → Inv s)
    (hstep : ∀ o s s', Inv s → ok o s → step o s = some s' → Inv s') : Inv s := by
  induction h with
  | start h => exact hinit _ h
  | next o _ hok hs ih => exact hstep o _ _ ih hok hs

theorem Reachable.mono {ok' : Op → State → Prop} (hok : ∀ o s, ok o s → ok' o s) {s : State}
    (h : Reachable step ok init s) : Reachable step ok' init s := by
  induction h with
  | start h => exact .start h
  | next o _ ho hs ih => exact .next o ih (hok _ _ ho) hs

theorem exec_concat (os : List Op) (o : Op) (s : State) : exec step (os ++ [o]) s = (exec step os s).bind (step o) := by
  induction os generalizing s with
  | nil =>
      rw [List.nil_append, exec, exec, Option.bind_some]
      exact Option.bind_fun_some (step o s)
  | cons p os ih =>
      rw [List.cons_append, exec, exec, Option.bind_assoc]
      exact congrArg _ (funext ih)

theorem reachable_of_exec (os : List Op) (hos : ∀ o ∈ os, ∀ s, ok o s) {s s' : State}
    (h : Reachable step ok init s) (he : exec step os s = some s') : Reachable step ok init s' := by
  induction os generalizing s with
  | nil =>
      have hs : s = s' := Option.some.inj he
      exact hs ▸ h
  | cons o os ih =>
      simp only [exec, Option.bind_eq_some_iff] at he
      obtain ⟨t, ht, he⟩ := he
      exact ih (fun o ho => hos o (List.mem_cons_of_mem _ ho)) (.next o h (hos o (List.mem_cons_self ..) s) ht) he

end OiUserland.Lib.Runs
