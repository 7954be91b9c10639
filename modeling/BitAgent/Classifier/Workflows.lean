/-
# Classifier.Workflows — workflows that run each other

The actions of `internal/classifier` that run others, with every other action as a function of the result. `Compile`
checks that a workflow that is run exists, and not that it does not come to run itself.
-/
import Mathlib

namespace BitAgent.Classifier

variable {Result Err : Type}

/-- A compiled action; `andThen` and `findMatch` are the loops over actions, ended by `done`. -/
inductive Action (Result Err : Type) where
  | other (run : Result → Except Err Result)
  | done
  | andThen (first rest : Action Result Err)
  | findMatch (first rest : Action Result Err)
  | ifElse (cond : Result → Except Err Bool) (ifAction elseAction : Action Result Err)
  | runWorkflow (names : List String)

def Action.calls : Action Result Err → List String
  | .andThen a b | .findMatch a b | .ifElse _ a b => a.calls ++ b.calls
  | .runWorkflow names => names
  | _ => []

abbrev Workflows (Result Err : Type) := List (String × Action Result Err)

def compile (source : Workflows Result Err) : Except String (Workflows Result Err) :=
  match (source.flatMap (·.2.calls)).find? fun name => (source.lookup name).isNone with
  | some name => .error ("workflow " ++ name ++ " not found")
  | none => .ok source

variable (isUnmatched : Err → Bool) (runtimeError : Err → Err)

/-- What an action does, given what running a workflow does; `none` is a run that goes on. -/
def Action.run (call : String → Result → ExceptT Err Option Result) :
    Action Result Err → Result → ExceptT Err Option Result
  | .other run, r => ExceptT.mk (some (run r))
  | .done, r => pure r
  | .andThen a b, r => a.run call r >>= b.run call
  | .findMatch a b, r => ExceptT.mk <| (a.run call r).run.bind fun
    | .ok r' => some (.ok r')
    | .error err => if isUnmatched err then (b.run call r).run else some (.error (runtimeError err))
  | .ifElse cond a b, r => ExceptT.mk (some (cond r)) >>= fun c => if c then a.run call r else b.run call r
  | .runWorkflow names, r => names.foldlM (fun r name => call name r) r

/-- A workflow with at most so many nested runs. `compile` excludes a missing one. -/
def runNested (workflows : Workflows Result Err) : Nat → String → Result → ExceptT Err Option Result
  | 0, _, _ => ExceptT.mk none
  | depth + 1, name, r =>
    match workflows.lookup name with
    | some a => a.run isUnmatched runtimeError (runNested workflows depth) r
    | none => ExceptT.mk none

def Ends (m : ExceptT Err Option Result) : Prop := m.run.isSome = true

def Terminates (workflows : Workflows Result Err) (name : String) (r : Result) : Prop :=
  ∃ depth, Ends (runNested isUnmatched runtimeError workflows depth name r)

def Calls (workflows : Workflows Result Err) (caller name : String) : Prop :=
  ∃ a, workflows.lookup caller = some a ∧ name ∈ a.calls

def EndsBelow (workflows : Workflows Result Err) (name : String) : Prop :=
  ∃ bound, ∀ depth, bound ≤ depth → ∀ r, Ends (runNested isUnmatched runtimeError workflows depth name r)

theorem ends_bind {α : Type} {m : ExceptT Err Option α} {f : α → ExceptT Err Option Result}
    (hm : m.run.isSome = true) (hf : ∀ x, Ends (f x)) : Ends (m >>= f) := by
  obtain ⟨out, hout⟩ := Option.isSome_iff_exists.mp hm
  unfold Ends
  rw [ExceptT.run_bind, hout]
  cases out with
  | error e => rfl
  | ok x => exact hf x

theorem Action.run_ends {call : String → Result → ExceptT Err Option Result} (a : Action Result Err)
    (hcall : ∀ name ∈ a.calls, ∀ r, Ends (call name r)) (r : Result) :
    Ends (a.run isUnmatched runtimeError call r) := by
  induction a generalizing r with
  | other run => rfl
  | done => rfl
  | andThen a b iha ihb =>
    simp only [calls, List.forall_mem_append] at hcall
    exact ends_bind (iha hcall.1 r) (ihb hcall.2)
  | findMatch a b iha ihb =>
    simp only [calls, List.forall_mem_append] at hcall
    obtain ⟨out, hout⟩ := Option.isSome_iff_exists.mp (iha hcall.1 r)
    have hb := ihb hcall.2 r
    simp only [Ends, Action.run, ExceptT.run_mk, hout, Option.bind_some] at hb ⊢
    cases out with
    | ok r' => rfl
    | error err =>
      dsimp only
      split_ifs
      · exact hb
      · rfl
  | ifElse cond a b iha ihb =>
    simp only [calls, List.forall_mem_append] at hcall
    refine ends_bind rfl fun c => ?_
    cases c with
    | true => exact iha hcall.1 r
    | false => exact ihb hcall.2 r
  | runWorkflow names =>
    simp only [calls] at hcall
    simp only [Action.run]
    induction names generalizing r with
    | nil => rfl
    | cons name names ih =>
      rw [List.forall_mem_cons] at hcall
      rw [List.foldlM_cons]
      exact ends_bind (hcall.1 r) (ih hcall.2)

/-- What an accepted workflow calls is there. -/
theorem isSome_of_calls {source workflows : Workflows Result Err} (h : compile source = .ok workflows)
    {caller name : String} (hcalls : Calls workflows caller name) : (workflows.lookup name).isSome := by
  unfold compile at h
  split at h
  · cases h
  next hnone =>
    cases h
    obtain ⟨a, ha, hname⟩ := hcalls
    obtain ⟨l, l', rfl, -⟩ := List.lookup_eq_some_iff.mp ha
    have hfound := List.find?_eq_none.mp hnone name (List.mem_flatMap.mpr ⟨_, List.mem_append_cons_self, hname⟩)
    simpa [Option.isSome_iff_ne_none] using hfound

theorem endsBelow_of_calls {workflows : Workflows Result Err} {name : String} {a : Action Result Err}
    (ha : workflows.lookup name = some a)
    (hcalled : ∀ m ∈ a.calls, EndsBelow isUnmatched runtimeError workflows m) :
    EndsBelow isUnmatched runtimeError workflows name := by
  choose! bound hbound using hcalled
  refine ⟨(a.calls.map bound).sum + 1, fun depth hdepth r => ?_⟩
  obtain ⟨depth, rfl⟩ : ∃ d, depth = d + 1 := ⟨depth - 1, by omega⟩
  simp only [runNested, ha]
  refine a.run_ends _ _ (fun m hm => hbound m hm depth ?_) r
  have hle := List.single_le_sum (fun _ _ => Nat.zero_le _) _ (List.mem_map_of_mem (f := bound) hm)
  omega

/-- **Runs end without cycles**, on every result, in every accepted source. -/
theorem terminates_of_acyclic {source workflows : Workflows Result Err} (h : compile source = .ok workflows)
    (hacyclic : ∀ name, ¬ Relation.TransGen (Calls workflows) name name) {name : String}
    (hname : (workflows.lookup name).isSome) (r : Result) : Terminates isUnmatched runtimeError workflows name r := by
  let below (m n : String) : Prop := Relation.TransGen (Calls workflows) n m
  have : IsStrictOrder String below := { irrefl := hacyclic, trans := fun _ _ _ h h' => h'.trans h }
  have hfinite : {name | (workflows.lookup name).isSome}.Finite := by
    refine (workflows.map Prod.fst).finite_toSet.subset fun name h => ?_
    simpa using h
  have hends : EndsBelow isUnmatched runtimeError workflows name := by
    refine Set.WellFoundedOn.induction (P := EndsBelow isUnmatched runtimeError workflows)
      (hfinite.wellFoundedOn (r := below)) hname fun name hname ih => ?_
    obtain ⟨a, ha⟩ := Option.isSome_iff_exists.mp hname
    exact endsBelow_of_calls _ _ ha fun m hm => ih m (isSome_of_calls h ⟨a, ha, hm⟩) (.single ⟨a, ha, hm⟩)
  obtain ⟨bound, hbound⟩ := hends
  exact ⟨bound, hbound bound (Nat.le_refl bound) r⟩

def twoWorkflows : Workflows Nat String :=
  [("default", .runWorkflow ["policy"]), ("policy", .other fun r => .ok (r + 1))]

theorem twoWorkflows_terminates : Terminates (fun _ => false) id twoWorkflows "default" 0 := by
  have hcalls : ∀ {m n}, Calls twoWorkflows m n → m = "default" ∧ n = "policy" := by
    rintro m n ⟨a, ha, hn⟩
    grind [twoWorkflows, List.lookup, Action.calls]
  refine terminates_of_acyclic _ _ (show compile twoWorkflows = _ from rfl) (fun name hcycle => ?_) rfl 0
  obtain ⟨_, hfirst, -⟩ := Relation.TransGen.head'_iff.mp hcycle
  obtain ⟨_, -, hlast⟩ := Relation.TransGen.tail'_iff.mp hcycle
  exact absurd ((hcalls hfirst).1.symm.trans (hcalls hlast).2) (by decide)

def selfCall : Workflows Nat String := [("default", .runWorkflow ["default"])]

/-- A workflow that runs itself is accepted and does not end. -/
theorem selfCall_does_not_end :
    compile selfCall = .ok selfCall ∧ ¬ Terminates (fun _ => false) id selfCall "default" 0 := by
  refine ⟨rfl, ?_⟩
  rintro ⟨depth, hends⟩
  induction depth with
  | zero => cases hends
  | succ depth ih => exact ih (by simpa [Ends, runNested, selfCall, Action.run] using hends)

end BitAgent.Classifier
