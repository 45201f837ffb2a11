import Eafcc.CfgCenter.Poison

namespace Eafcc.CfgCenter

open Eafcc.Model Eafcc.Storage Transition

/-! # Calls end after a panic

Before a panic a create and an update can block each other.  Afterwards a thread
that holds the mutex of the version only drops its guards, so that no thread waits
for one that waits.
-/

variable {Pri : Type} {crates : Crates Pri} {s s' s'' : PoisonState Pri} {t u : Nat}
  {mutex : Mutex} {action : PoisonAction crates} {next : PoisonThread Pri}
  {center : CFGCenterInner Pri}

/-- Steps in which no call begins, and that leave each thread but one where it is
or take it out of its call. -/
def Eases (crates : Crates Pri) (t : Nat) (s s' : PoisonState Pri) : Prop :=
  ∃ steps, Run (PoisonStep crates) s steps s' ∧
    (∀ taken ∈ steps, ∀ call, taken.label.2 ≠ .run (.call call)) ∧
    ∀ u, u ≠ t → s'.threads u = s.threads u ∨ s'.threads u = .running .idle

def Finishes (crates : Crates Pri) (t : Nat) (s : PoisonState Pri) : Prop :=
  ∃ s', Eases crates t s s' ∧ s'.threads t = .running .idle

theorem Eases.refl (s : PoisonState Pri) : Eases crates t s s :=
  ⟨[], .nil, by simp, fun _ _ => .inl rfl⟩

theorem Eases.trans (first : Eases crates t s s') (second : Eases crates t s' s'') :
    Eases crates t s s'' := by
  obtain ⟨steps, run, calm, still⟩ := first
  obtain ⟨steps', run', calm', still'⟩ := second
  refine ⟨steps ++ steps', run.append run', ?_, fun u other => ?_⟩
  · simp only [List.forall_mem_append]
    exact ⟨calm, calm'⟩
  · rcases still' u other with same | idle
    · rw [same]
      exact still u other
    · exact .inr idle

theorem Eases.finishes (eases : Eases crates t s s') (finishes : Finishes crates t s') :
    Finishes crates t s := by
  obtain ⟨s'', more, idle⟩ := finishes
  exact ⟨s'', eases.trans more, idle⟩

/-- A step of a thread in a call, from where it stands. -/
theorem PoisonMoves.eases {thread : PoisonThread Pri} (here : s.threads t = thread)
    (moves : PoisonMoves crates s.poisoned s.center thread action next center)
    (free : ∀ mutex, action.acquires = some mutex → s.holder mutex = none)
    (calm : ∀ call, action ≠ .run (.call call)) :
    ∃ s', Eases crates t s s' ∧ s'.threads t = next ∧ s'.poisoned = action.poisons s.poisoned := by
  rw [← here] at moves
  refine ⟨_, ⟨_, Run.nil.snoc (.step moves free), by simpa using calm, fun u other => .inl ?_⟩, ?_, rfl⟩
  · simp [other]
  · simp

theorem Eases.valid (eases : Eases crates t s s') (valid : s.Valid crates) : s'.Valid crates := by
  obtain ⟨steps, run, -, -⟩ := eases
  exact run.invariant valid fun _ _ _ valid step => step.valid valid

theorem Eases.broken (eases : Eases crates t s s') (broken : s.Broken) : s'.Broken := by
  obtain ⟨steps, run, -, -⟩ := eases
  exact run.invariant broken fun _ _ _ broken step => step.broken broken

/-! ## Dropping guards -/

theorem refused_finishes {guards : List Mutex} {error : Option CCLibError}
    (here : s.threads t = .refused guards error) : Finishes crates t s := by
  induction guards generalizing s with
  | nil =>
      obtain ⟨s', eases, idle, -⟩ := PoisonMoves.eases here (.return_ : PoisonMoves crates _ _ _ _ _ _)
        (by simp [PoisonAction.acquires]) (by simp)
      exact ⟨s', eases, idle⟩
  | cons mutex guards ih =>
      obtain ⟨s', eases, left, -⟩ := PoisonMoves.eases here (.drop : PoisonMoves crates _ _ _ _ _ _)
        (by simp [PoisonAction.acquires]) (by simp)
      exact eases.finishes (ih left)

theorem unwinding_finishes {guards : List Mutex} (here : s.threads t = .unwinding guards) :
    Finishes crates t s := by
  induction guards generalizing s with
  | nil =>
      obtain ⟨s', eases, idle, -⟩ := PoisonMoves.eases here (.unwound : PoisonMoves crates _ _ _ _ _ _)
        (by simp [PoisonAction.acquires]) (by simp)
      exact ⟨s', eases, idle⟩
  | cons mutex guards ih =>
      obtain ⟨s', eases, left, -⟩ := PoisonMoves.eases here (.poison : PoisonMoves crates _ _ _ _ _ _)
        (by simp [PoisonAction.acquires]) (by simp)
      exact eases.finishes (ih left)

theorem release_finishes {thread : Thread Pri} (here : s.threads t = .running thread)
    (moves : Moves crates s.center thread (.release mutex) .idle center) : Finishes crates t s := by
  obtain ⟨s', eases, idle, -⟩ := PoisonMoves.eases here (.run moves fun _ acquires => by cases acquires)
    (by simp [PoisonAction.acquires]) (by simp)
  exact ⟨s', eases, idle⟩

/-- A thread that is refused a mutex drops its guards and returns. -/
theorem refuse_finishes {thread : PoisonThread Pri} {guards : List Mutex} {error : Option CCLibError}
    (here : s.threads t = thread)
    (moves : PoisonMoves crates s.poisoned s.center thread (.refuse mutex) (.refused guards error) center)
    (free : s.holder mutex = none) : Finishes crates t s := by
  have grants : ∀ wanted, (PoisonAction.refuse mutex : PoisonAction crates).acquires = some wanted →
      s.holder wanted = none := by
    intro wanted same
    cases same
    exact free
  obtain ⟨s', eases, left, -⟩ := PoisonMoves.eases here moves grants (by simp)
  exact eases.finishes (refused_finishes left)

/-! ## Freeing a mutex -/

/-- Steps of other threads that free a mutex, which may have taken the thread out
of its call as well. -/
def Frees (crates : Crates Pri) (t : Nat) (mutex : Mutex) (s : PoisonState Pri) : Prop :=
  ∃ s', Eases crates t s s' ∧ s'.holder mutex = none ∧
    (s'.threads t = s.threads t ∨ s'.threads t = .running .idle)

/-- The steps that take the holder of a mutex out of its call free the mutex. -/
theorem Finishes.frees (finishes : Finishes crates u s) (valid : s.Valid crates)
    (held : s.holder mutex = some u) (other : t ≠ u) : Frees crates t mutex s := by
  obtain ⟨s', eases, idle⟩ := finishes
  have valid' := eases.valid valid
  have holds := (valid.locked mutex u).mp held
  obtain ⟨steps, run, calm, still⟩ := eases
  have eased : Eases crates t s s' := by
    refine ⟨steps, run, calm, fun v _ => ?_⟩
    by_cases own : v = u
    · exact .inr (own ▸ idle)
    · exact still v own
  refine ⟨s', eased, ?_, still t other⟩
  by_contra taken
  obtain ⟨v, holder⟩ := Option.ne_none_iff_exists'.mp taken
  have inside := (valid'.locked mutex v).mp holder
  by_cases own : v = u
  · rw [own, idle] at inside
    cases inside
  · rcases still v own with same | outside
    · rw [same] at inside
      exact own (valid.locked.unique inside holds)
    · rw [outside] at inside
      cases inside

/-- A mutex that its holder gives back in any case can be freed. -/
theorem frees_of_holder (valid : s.Valid crates) (outside : (s.threads t).holds mutex = false)
    (gives : ∀ u, s.holder mutex = some u → Finishes crates u s) : Frees crates t mutex s := by
  cases held : s.holder mutex with
  | none => exact ⟨s, .refl s, held, .inl rfl⟩
  | some u =>
      refine (gives u held).frees valid held fun same => ?_
      have holds := (valid.locked mutex u).mp held
      rw [← same, outside] at holds
      cases holds

/-- After a panic the holder of the version can leave its call. -/
theorem version_frees (valid : s.Valid crates) (broken : s.Broken)
    (outside : (s.threads t).holds .currentVersion = false) : Frees crates t .currentVersion s := by
  refine frees_of_holder valid outside fun u held => ?_
  have holds := (valid.locked .currentVersion u).mp held
  cases here : s.threads u with
  | running thread =>
      rw [here] at holds
      exact absurd holds (Bool.eq_false_iff.mp (broken.outside valid here))
  | refused guards error => exact refused_finishes here
  | unwinding guards => exact unwinding_finishes here

/-- A thread that asks for the version is refused it, once it is free. -/
theorem version_refused {thread : Thread Pri} {guards : List Mutex} {error : Option CCLibError}
    (valid : s.Valid crates) (broken : s.Broken) (here : s.threads t = .running thread)
    (refused : ∀ poisoned (center : CFGCenterInner Pri), poisoned .currentVersion = true →
      PoisonMoves crates poisoned center (.running thread) (.refuse .currentVersion)
        (.refused guards error) center) : Finishes crates t s := by
  have outside : (s.threads t).holds .currentVersion = false := by
    rw [here]
    exact broken.outside valid here
  obtain ⟨s', eases, free, same | idle⟩ := version_frees valid broken outside
  · have poisoned := (eases.broken broken).closed (eases.valid valid) free
    exact eases.finishes (refuse_finishes (same.trans here) (refused _ _ poisoned) free)
  · exact ⟨s', eases, idle⟩

/-- A thread that holds the map of namespaces after a panic can leave its call. -/
theorem namespaces_finishes (valid : s.Valid crates) (broken : s.Broken)
    (holds : (s.threads t).holds .namespaces = true) : Finishes crates t s := by
  cases here : s.threads t with
  | refused guards error => exact refused_finishes here
  | unwinding guards => exact unwinding_finishes here
  | running thread =>
      have outside := broken.outside valid here
      rw [here] at holds
      cases thread with
      | getReturn result => exact release_finishes here .getReturn
      | updateReturn => exact release_finishes here .updateReturn
      | updateLock e => exact version_refused valid broken here fun _ _ => .versionRefused
      | idle | get | create | createLoad | createLock | createReturn | update => cases holds
      | createInsert | createUnlock | updateLoop | updateInstall | updateUnlock => cases outside

/-- A thread that asks for the map of namespaces gets it or is refused, and leaves
its call either way. -/
theorem namespaces_asked {thread : Thread Pri} {guards : List Mutex}
    {error : Option CCLibError} (valid : s.Valid crates) (broken : s.Broken)
    (here : s.threads t = .running thread) (waits : thread.waits = some .namespaces)
    (gets : ∀ center : CFGCenterInner Pri, ∃ next, Moves crates center thread (.acquire .namespaces) next center)
    (refused : ∀ poisoned (center : CFGCenterInner Pri), poisoned .namespaces = true →
      PoisonMoves crates poisoned center (.running thread) (.refuse .namespaces)
        (.refused guards error) center) : Finishes crates t s := by
  have outside : (s.threads t).holds .namespaces = false := by
    rw [here]
    cases thread <;> first | rfl | cases waits
  obtain ⟨s', eases, free, same | idle⟩ := frees_of_holder valid outside fun u held =>
    namespaces_finishes valid broken ((valid.locked .namespaces u).mp held)
  · cases poisoned : s'.poisoned .namespaces with
    | true => exact eases.finishes (refuse_finishes (same.trans here) (refused _ _ poisoned) free)
    | false =>
        obtain ⟨next, moves⟩ := gets s'.center
        have grants : ∀ mutex, (PoisonAction.run (.acquire .namespaces) : PoisonAction crates).acquires =
            some mutex → s'.holder mutex = none := by
          intro mutex acquires
          cases acquires
          exact free
        obtain ⟨s'', more, inside, -⟩ := PoisonMoves.eases (same.trans here)
          (.run moves fun _ acquires => by cases acquires; exact poisoned) grants (by simp)
        have holds : (s''.threads t).holds .namespaces = true := by
          rw [inside, PoisonThread.holds, moves.holds]
          simp
        have both := eases.trans more
        exact both.finishes (namespaces_finishes (both.valid valid) (both.broken broken) holds)
  · exact ⟨s', eases, idle⟩

theorem finishes_of_broken (valid : s.Valid crates) (broken : s.Broken) (t : Nat) :
    Finishes crates t s := by
  cases here : s.threads t with
  | refused guards error => exact refused_finishes here
  | unwinding guards => exact unwinding_finishes here
  | running thread =>
      have outside := broken.outside valid here
      cases thread with
      | idle => exact ⟨s, .refl s, here⟩
      | get ns => exact namespaces_asked valid broken here rfl (fun _ => ⟨_, .getLock⟩) fun _ _ => .getRefused
      | update e => exact namespaces_asked valid broken here rfl (fun _ => ⟨_, .update⟩) fun _ _ => .updateRefused
      | create ns level callback => exact version_refused valid broken here fun _ _ => .createRefused
      | getReturn | updateLock | updateReturn =>
          exact namespaces_finishes valid broken (by rw [here]; rfl)
      | createLoad | createLock | createInsert | createUnlock | createReturn | updateLoop
      | updateInstall | updateUnlock => cases outside

/-- After a panic no call is blocked for ever: from every state, each call in
progress can be brought to its end by steps in which no other call begins. -/
theorem calls_end_after_panic (crates : Crates Pri) (version : VersionItem)
    (steps : PoisonSteps crates) (s : PoisonState Pri)
    (run : Run (PoisonStep crates) (.start version) steps s)
    (panicked : ∃ taken ∈ steps, taken.label.2 = .panic) (t : Nat) :
    ∃ more s', Run (PoisonStep crates) s more s' ∧
      (∀ later ∈ more, ∀ call, later.label.2 ≠ .run (.call call)) ∧ s'.threads t = .running .idle := by
  obtain ⟨taken, member, panics⟩ := panicked
  obtain ⟨before, after, rfl⟩ := List.append_of_mem member
  obtain ⟨-, step, later⟩ := run.split_at
  have broken := later.invariant (step.breaks panics) fun _ _ _ broken step => step.broken broken
  obtain ⟨s', ⟨more, run', calm, -⟩, idle⟩ := finishes_of_broken (PoisonStep.run_valid run) broken t
  exact ⟨more, s', run', calm, idle⟩

theorem calls_end_after_panic_sample : ∃ steps s,
    Run (PoisonStep sampleCrates) (.start sampleVersion) steps s ∧ s.threads 0 ≠ .running .idle ∧
    ∃ more s', Run (PoisonStep sampleCrates) s more s' ∧
      (∀ later ∈ more, ∀ call, later.label.2 ≠ .run (.call call)) ∧ s'.threads 0 = .running .idle := by
  obtain ⟨before, taken, s, run, panics, unwinds⟩ := sample_panics
  exact ⟨_, s, run, by simp [unwinds],
    calls_end_after_panic sampleCrates sampleVersion _ s run ⟨taken, by simp, panics⟩ 0⟩

end Eafcc.CfgCenter
