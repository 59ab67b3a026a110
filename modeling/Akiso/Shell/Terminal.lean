import Akiso.Shell.Accounting
import Akiso.Shell.Orderly
import Akiso.Shell.Signals

set_option autoImplicit false

namespace Akiso.Shell

open Transition

/-- The shell with its terminal: the group in the foreground, the modes, terminal_config, and the
first process of a foreground job while it has yet to take the terminal. -/
structure Console (Modes : Type) where
  shell : ShellState
  foreground : Nat
  modes : Modes
  config : Modes
  taking : Option Nat

/-- took is the get_terminal of a child; programs of a group configure the terminal and pass it on.
-/
inductive ConsoleEvent (Modes : Type) where
  | shell (event : ShellEvent)
  | took
  | configured (group : Nat) (modes : Modes)
  | passed (group foreground : Nat)
  deriving DecidableEq, Repr

section Steps

variable {Modes : Type}

def Console.effect (console : Console Modes) (event : MainEvent) (next : ShellState) :
    Console Modes :=
  match event with
  | .startJob job =>
    { console with shell := next, config := if job.fg then console.modes else console.config }
  | .forked pid =>
    match console.shell.control with
    | .starting job true _ =>
      { console with
        shell := next
        taking := if (console.shell.jobs job).fg then some pid else none }
    | _ => { console with shell := next }
  | .handedOver =>
    match console.shell.control with
    | .fetched job => { console with shell := next, foreground := (console.shell.jobs job).pgid }
    | _ => { console with shell := next }
  | .regained =>
    { console with shell := next, foreground := shellGroup, modes := console.config }
  -- The child is past its exec, dead, or has been sent SIGTERM.
  | .started => { console with shell := next, taking := none }
  | .startFailed => { console with shell := next, taking := none }
  | _ => { console with shell := next }

-- read_error returns 0 only once the first process has closed its end of the pipe.
def Console.Ready (console : Console Modes) (event : ShellEvent) : Prop :=
  event = .main .started → ∀ child ∈ console.shell.children,
    console.taking = some child.pid → child.status = .zombie

instance decidableConsoleReady (console : Console Modes) (event : ShellEvent) :
    Decidable (console.Ready event) :=
  inferInstanceAs (Decidable (_ → _))

def consoleStep (console : Console Modes) : ConsoleEvent Modes → Option (Console Modes)
  | .shell event =>
    if console.Ready event then
      (shellStep console.shell event).map fun next =>
        match event with
        | .main event => console.effect event next
        | _ => { console with shell := next }
    else none
  | .took =>
    match console.taking with
    | some pid =>
      if ∃ child ∈ console.shell.children, child.pid = pid ∧ child.status = .running then
        some { console with foreground := pid, taking := none }
      else none
    | none => none
  -- A process that ignores or blocks SIGTTOU gets this done from any group.
  | .configured _ modes => some { console with modes }
  | .passed _ foreground => some { console with foreground }

def initialConsole (modes : Modes) : Console Modes :=
  { shell := initialShell, foreground := shellGroup, modes, config := modes, taking := none }

-- In the foreground. The shell's own group holds the shell and the children that setpgid has left
-- in it.
def Console.Entitled (console : Console Modes) (group : Nat) : Prop :=
  group = console.foreground ∧
    (group = shellGroup →
      ∃ child ∈ console.shell.children, child.status = .running ∧ child.pgid = shellGroup)

instance decidableEntitled (console : Console Modes) (group : Nat) :
    Decidable (console.Entitled group) :=
  inferInstanceAs (Decidable (_ ∧ (_ → _)))

-- SIGTTOU stops every process that changes the terminal from the background.
def AttributedConsole (console : Console Modes) : ConsoleEvent Modes → Prop
  | .shell event => AttributedSweep console.shell event
  | .took => True
  | .configured group _ => console.Entitled group
  | .passed group _ => console.Entitled group

instance decidableAttributedConsole (console : Console Modes) :
    ∀ event, Decidable (AttributedConsole console event)
  | .shell event => inferInstanceAs (Decidable (AttributedSweep console.shell event))
  | .took => isTrue True.intro
  | .configured group _ => inferInstanceAs (Decidable (console.Entitled group))
  | .passed group _ => inferInstanceAs (Decidable (console.Entitled group))

end Steps

def Control.prompting : Control → Bool
  | .command => true
  | .fetched _ => true
  | .moved _ => true
  | .relisted _ => true
  | .printing ending => !ending
  | .showing ending _ => !ending
  | .removing ending => !ending
  | _ => false

variable {state next : ShellState}

theorem prompting_main {event : MainEvent} (taken : mainStep state event = some next)
    (prompting : next.control.prompting = true) :
    event = .regained ∨ state.control.prompting = true ∧ event ≠ .handedOver := by
  unfold mainStep at taken
  split at taken
  next =>
    unfold controlStep at taken
    split at taken
    next here =>
      refine .inr ⟨by rw [here]; rfl, ?_⟩
      rintro rfl
      simp [commandStep] at taken
    next =>
      unfold startStep at taken
      split at taken
      next =>
        split at taken <;> cases taken
        simp [forkMember, Control.prompting] at prompting
      next =>
        cases taken
        unfold launchJob at prompting
        split at prompting <;> simp [ShellState.goto, Control.prompting] at prompting
      next =>
        cases taken
        simp [ShellState.goto, Control.prompting] at prompting
      next => simp at taken
    next =>
      unfold waitStep at taken
      split at taken
      next =>
        obtain ⟨outcome, _, rfl⟩ := Option.map_eq_some_iff.mp taken
        unfold waitForFgJob at prompting
        dsimp only at prompting
        split at prompting <;> simp [ShellState.goto, Control.prompting] at prompting
      next =>
        split at taken <;> cases taken
        simp [ShellState.goto, Control.prompting] at prompting
      next => simp at taken
    next =>
      unfold terminalStep at taken
      split at taken
      next => exact .inl rfl
      next =>
        cases taken
        simp [ShellState.goto, Control.prompting] at prompting
      next => simp at taken
    next here =>
      refine .inr ⟨by rw [here]; rfl, ?_⟩
      rintro rfl
      cases taken
      simp [Control.prompting] at prompting
    next here =>
      refine .inr ⟨by rw [here]; rfl, ?_⟩
      rintro rfl
      simp [bgStep] at taken
    next here =>
      refine .inr ⟨by rw [here]; rfl, ?_⟩
      rintro rfl
      simp [announceStep] at taken
    next ending here =>
      unfold printStep at taken
      split at taken
      next =>
        refine .inr ⟨?_, by simp⟩
        split at taken <;> cases taken
        · simpa [here, Control.prompting] using prompting
        · simpa [here, ShellState.goto, Control.prompting] using prompting
      next => simp at taken
    next ending job here =>
      unfold showStep at taken
      split at taken <;> cases taken
      exact .inr ⟨by simpa [here, Control.prompting] using prompting, by simp⟩
    next ending here =>
      unfold removeStep at taken
      split at taken
      next =>
        refine .inr ⟨?_, by simp⟩
        split at taken <;> cases taken
        · exact prompting
        · cases ending with
          | false => rw [here]; rfl
          | true => simp [ShellState.goto, Control.prompting] at prompting
      next => simp at taken
    next =>
      split at taken <;> cases taken
      simp [ShellState.goto, Control.prompting] at prompting
    next here =>
      unfold drainStep at taken
      split at taken
      next =>
        split at taken <;> cases taken
        · simp [here, Control.prompting] at prompting
        · simp [ShellState.goto, Control.prompting] at prompting
      next => simp at taken
    next here =>
      unfold reapStep at taken
      split at taken
      next =>
        obtain ⟨outcome, _, rfl⟩ := Option.map_eq_some_iff.mp taken
        simp [here, Control.prompting] at prompting
      next =>
        split at taken <;> cases taken
        simp [ShellState.goto, Control.prompting] at prompting
      next => simp at taken
    next => simp at taken
    next => simp at taken
  next => simp at taken

theorem childStep_control {event : ChildEvent} (taken : childStep state event = some next) :
    next.control = state.control := by
  cases event <;>
  · simp only [childStep] at taken
    split at taken <;> cases taken
    rfl

def Grouped (state : ShellState) : Prop :=
  ∀ child ∈ state.children, child.pgid ≠ shellGroup

theorem grouped_setStatus {pid : Nat} {status : ChildStatus} (grouped : Grouped state) :
    ∀ child ∈ setStatus pid status state.children, child.pgid ≠ shellGroup := by
  intro child member
  obtain ⟨old, present, _, pgid, _⟩ := mem_setStatus member
  exact pgid ▸ grouped old present

theorem grouped_reapChild {pid : Nat} (grouped : Grouped state) :
    ∀ child ∈ reapChild pid state.children, child.pgid ≠ shellGroup :=
  fun child member => grouped child (List.mem_of_mem_filter member)

theorem grouped_waitpid {matching : Child → Bool} {untraced : Bool} {pid : Nat}
    {outcome : Report × List Child} (grouped : Grouped state)
    (returned : waitpid matching untraced pid state.children = some outcome) :
    ∀ child ∈ outcome.2, child.pgid ≠ shellGroup := by
  obtain ⟨_, _, _, _, rfl | ⟨_, rfl⟩⟩ := waitpid_some returned
  · exact grouped_reapChild grouped
  · exact grouped_setStatus grouped

theorem Grouped.childStep (grouped : Grouped state) {event : ChildEvent}
    (taken : childStep state event = some next) : Grouped next := by
  cases event <;>
  · simp only [Shell.childStep] at taken
    split at taken <;> cases taken
    exact grouped_setStatus grouped

theorem Grouped.handlerStep (grouped : Grouped state) {event : HandlerEvent}
    (taken : handlerStep state event = some next) : Grouped next := by
  unfold Shell.handlerStep at taken
  split at taken
  next =>
    split at taken <;> cases taken
    exact grouped
  next =>
    split at taken
    next =>
      obtain ⟨outcome, returned, rfl⟩ := Option.map_eq_some_iff.mp taken
      exact grouped_waitpid grouped returned
    next => simp at taken
  next =>
    split at taken
    next =>
      split at taken <;> cases taken
      unfold Grouped
      rwa [leaveHandle_children]
    next => simp at taken
  next =>
    split at taken
    next =>
      obtain ⟨outcome, returned, rfl⟩ := Option.map_eq_some_iff.mp taken
      unfold Grouped
      rw [sweepChild_children]
      exact grouped_waitpid grouped returned
    next => simp at taken
  next =>
    split at taken
    next =>
      split at taken <;> cases taken
      exact grouped
    next => simp at taken

theorem Grouped.fork (grouped : Grouped state) {child : Child} (consistent : Consistent next)
    (addressed : Addressed next) (children : next.children = state.children ++ [child])
    (named : next.control.named = some child.job) : Grouped next := by
  have owned : child.job ∈ next.owned := by
    cases here : next.control with
    | starting job first remaining =>
      cases first <;> simp_all [Control.named, ShellState.owned, Control.grouped, Control.held]
    | _ => simp_all [Control.named, ShellState.owned, Control.grouped, Control.held]
  have present : child ∈ next.children := by simp [children]
  have group := (consistent.ledger.groups child.job owned child present).mpr rfl
  have known := (addressed.groups child.job (mem_addressed.mpr (.inl named))).2
  intro other member
  rw [children] at member
  rcases List.mem_append.mp member with old | new
  · exact grouped other old
  · rw [List.mem_singleton.mp new, group]
    exact Nat.ne_of_gt (Nat.lt_trans Nat.zero_lt_one known)

theorem Grouped.mainStep (grouped : Grouped state) {event : MainEvent}
    (consistent : Consistent next) (addressed : Addressed next)
    (taken : mainStep state event = some next) : Grouped next := by
  have kept : next.children = state.children → Grouped next := by
    intro same
    unfold Grouped
    rwa [same]
  unfold Shell.mainStep at taken
  split at taken
  next =>
    unfold controlStep at taken
    split at taken
    next => exact kept (commandStep_children taken)
    next =>
      unfold startStep at taken
      split at taken
      next =>
        split at taken <;> cases taken
        exact grouped.fork consistent addressed rfl rfl
      next =>
        cases taken
        apply kept
        unfold launchJob
        split <;> rfl
      next =>
        cases taken
        exact grouped
      next => simp at taken
    next =>
      unfold waitStep at taken
      split at taken
      next =>
        obtain ⟨outcome, returned, rfl⟩ := Option.map_eq_some_iff.mp taken
        unfold Grouped
        rw [waitForFgJob_children]
        exact grouped_waitpid grouped returned
      next =>
        split at taken <;> cases taken
        exact grouped
      next => simp at taken
    next =>
      unfold terminalStep at taken
      split at taken <;> cases taken <;> exact grouped
    next =>
      unfold fgStep at taken
      split at taken <;> cases taken <;> exact grouped
    next =>
      unfold bgStep at taken
      split at taken <;> cases taken
      exact grouped
    next =>
      unfold announceStep at taken
      split at taken <;> cases taken
      exact grouped
    next =>
      unfold printStep at taken
      split at taken
      next => split at taken <;> cases taken <;> exact grouped
      next => simp at taken
    next =>
      unfold showStep at taken
      split at taken <;> cases taken
      exact grouped
    next =>
      unfold removeStep at taken
      split at taken
      next => split at taken <;> cases taken <;> exact grouped
      next => simp at taken
    next =>
      split at taken <;> cases taken
      exact grouped
    next =>
      unfold drainStep at taken
      split at taken
      next => split at taken <;> cases taken <;> exact grouped
      next => simp at taken
    next =>
      unfold reapStep at taken
      split at taken
      next =>
        obtain ⟨outcome, returned, rfl⟩ := Option.map_eq_some_iff.mp taken
        exact grouped_waitpid grouped returned
      next =>
        split at taken <;> cases taken
        exact grouped
      next => simp at taken
    next => simp at taken
    next => simp at taken
  next => simp at taken

theorem mainStep_startJob {job : Job} (taken : mainStep state (.startJob job) = some next) :
    state.control = .command := by
  unfold mainStep controlStep at taken
  split at taken
  next =>
    split at taken
    next here => exact here
    all_goals simp [startStep, waitStep, terminalStep, fgStep, bgStep, announceStep, printStep,
      showStep, removeStep, drainStep, reapStep] at taken
  next => simp at taken

theorem mainStep_starting {event : MainEvent} {job : JobId} {remaining : Nat}
    (here : state.control = .starting job false remaining)
    (taken : mainStep state event = some next) :
    event = .started ∨ event = .startFailed ∨ ∃ pid, event = .forked pid := by
  unfold mainStep at taken
  split at taken
  next =>
    rw [controlStep, here] at taken
    dsimp only [startStep] at taken
    split at taken
    next =>
      split at taken <;> cases taken
      exact .inr (.inr ⟨_, rfl⟩)
    next => exact .inl rfl
    next => exact .inr (.inl rfl)
    next => simp at taken
  next => simp at taken

theorem mainStep_forked {pid : Nat} (taken : mainStep state (.forked pid) = some next) :
    ∃ job remaining, next.control = .starting job false remaining := by
  unfold mainStep controlStep at taken
  split at taken
  next =>
    split at taken
    next => simp [commandStep] at taken
    next =>
      unfold startStep at taken
      split at taken
      next =>
        split at taken <;> cases taken
        exact ⟨_, _, rfl⟩
      all_goals simp_all
    all_goals simp [waitStep, terminalStep, fgStep, bgStep, announceStep, printStep,
      showStep, removeStep, drainStep, reapStep] at taken
  next => simp at taken

structure Governed {Modes : Type} (initial : Modes) (console : Console Modes) : Prop where
  consistent : Consistent console.shell
  addressed : Addressed console.shell
  grouped : Grouped console.shell
  config : console.config = initial
  held : console.shell.control.prompting = true →
    console.foreground = shellGroup ∧ console.modes = initial
  taking : console.taking ≠ none → console.shell.control = .crashed ∨
    ∃ job remaining, console.shell.control = .starting job false remaining

section Runs

variable {Modes : Type} {initial : Modes} {console last : Console Modes}

theorem Governed.quiet (governed : Governed initial console)
    (prompting : console.shell.control.prompting = true) (group : Nat) :
    ¬ console.Entitled group := by
  rintro ⟨rfl, left⟩
  obtain ⟨child, present, _, left⟩ := left (governed.held prompting).1
  exact governed.grouped child present left

theorem Governed.aside (governed : Governed initial console) (consistent : Consistent next)
    (addressed : Addressed next) (grouped : Grouped next)
    (control : next.control = console.shell.control ∨ next.control = .crashed) :
    Governed initial { console with shell := next } := by
  refine ⟨consistent, addressed, grouped, governed.config, fun prompting => ?_,
    fun taking => ?_⟩
  · rcases control with kept | crashed
    · exact governed.held (kept ▸ prompting)
    · simp [crashed, Control.prompting] at prompting
  · rcases control with kept | crashed
    · rw [kept]
      exact governed.taking taking
    · exact .inl crashed

theorem Governed.unforked (governed : Governed initial console) {event : MainEvent}
    (taken : mainStep console.shell event = some next) (taking : console.taking ≠ none) :
    event = .started ∨ event = .startFailed ∨ ∃ pid, event = .forked pid := by
  rcases governed.taking taking with crashed | ⟨job, remaining, here⟩
  · unfold mainStep at taken
    split at taken
    · simp [controlStep, crashed] at taken
    · simp at taken
  · exact mainStep_starting here taken

theorem Governed.effect (governed : Governed initial console) {event : MainEvent}
    (consistent : Consistent next) (addressed : Addressed next) (grouped : Grouped next)
    (taken : mainStep console.shell event = some next) :
    Governed initial (console.effect event next) := by
  have prompted := prompting_main taken
  have unforked := governed.unforked taken
  have same : event ≠ .regained → event ≠ .started → event ≠ .startFailed →
      (∀ pid, event ≠ .forked pid) → ∀ config, config = initial →
      Governed initial { console with shell := next, config } := by
    intro regained started failed forked config kept
    refine ⟨consistent, addressed, grouped, kept, fun prompting => ?_, fun taking => ?_⟩
    · exact governed.held ((prompted prompting).resolve_left regained).1
    · rcases unforked taking with same | same | ⟨pid, same⟩
      · exact absurd same started
      · exact absurd same failed
      · exact absurd same (forked pid)
  cases event with
  | startJob job =>
    have here := mainStep_startJob taken
    refine same nofun nofun nofun nofun _ ?_
    split
    · exact (governed.held (by rw [here]; rfl)).2
    · exact governed.config
  | forked pid =>
    have here := mainStep_forked taken
    have busy : next.control.prompting ≠ true := by
      obtain ⟨job, remaining, here⟩ := here
      simp [here, Control.prompting]
    unfold Console.effect
    dsimp only
    split <;>
      exact ⟨consistent, addressed, grouped, governed.config, fun prompting =>
        absurd prompting busy, fun _ => .inr here⟩
  | handedOver =>
    have away : next.control.prompting ≠ true := fun prompting =>
      ((prompted prompting).resolve_left nofun).2 rfl
    have settled : console.taking = none := by
      by_contra taking
      simpa using unforked taking
    unfold Console.effect
    dsimp only
    split <;>
      exact ⟨consistent, addressed, grouped, governed.config, fun prompting =>
        absurd prompting away, fun taking => absurd settled taking⟩
  | regained =>
    have settled : console.taking = none := by
      by_contra taking
      simpa using unforked taking
    exact ⟨consistent, addressed, grouped, governed.config, fun _ => ⟨rfl, governed.config⟩,
      fun taking => absurd settled taking⟩
  | started =>
    exact ⟨consistent, addressed, grouped, governed.config, fun prompting =>
      governed.held ((prompted prompting).resolve_left nofun).1, fun taking => absurd rfl taking⟩
  | startFailed =>
    exact ⟨consistent, addressed, grouped, governed.config, fun prompting =>
      governed.held ((prompted prompting).resolve_left nofun).1, fun taking => absurd rfl taking⟩
  | _ => exact same nofun nofun nofun nofun _ governed.config

theorem Governed.step (governed : Governed initial console) {event : ConsoleEvent Modes}
    (attributed : AttributedConsole console event)
    (taken : consoleStep console event = some last) : Governed initial last := by
  cases event with
  | shell event =>
    unfold consoleStep at taken
    dsimp only at taken
    split at taken
    next =>
      obtain ⟨next, stepped, rfl⟩ := Option.map_eq_some_iff.mp taken
      have consistent := governed.consistent.shellStep attributed stepped
      have addressed := governed.addressed.shellStep stepped
      cases event with
      | child event =>
        exact governed.aside consistent addressed (governed.grouped.childStep stepped)
          (.inl (childStep_control stepped))
      | handler event =>
        exact governed.aside consistent addressed (governed.grouped.handlerStep stepped)
          (handlerStep_frame stepped).control
      | main event =>
        exact governed.effect consistent addressed
          (governed.grouped.mainStep consistent addressed stepped) stepped
    next => simp at taken
  | took =>
    unfold consoleStep at taken
    dsimp only at taken
    split at taken
    next pid taking =>
      split at taken <;> cases taken
      have away : console.shell.control.prompting ≠ true := by
        rcases governed.taking (by simp [taking]) with here | ⟨job, remaining, here⟩ <;>
          simp [here, Control.prompting]
      exact ⟨governed.consistent, governed.addressed, governed.grouped, governed.config,
        fun prompting => absurd prompting away, fun taking => absurd rfl taking⟩
    next => simp at taken
  | configured group modes =>
    cases taken
    exact ⟨governed.consistent, governed.addressed, governed.grouped, governed.config,
      fun prompting => absurd attributed (governed.quiet prompting group), governed.taking⟩
  | passed group foreground =>
    cases taken
    exact ⟨governed.consistent, governed.addressed, governed.grouped, governed.config,
      fun prompting => absurd attributed (governed.quiet prompting group), governed.taking⟩

theorem Governed.start (modes : Modes) : Governed modes (initialConsole modes) where
  consistent := Consistent.initial
  addressed := Addressed.initial
  grouped := by simp [Grouped, initialConsole, initialShell]
  config := rfl
  held _ := ⟨rfl, rfl⟩
  taking taking := absurd rfl taking

/-- Whatever jobs did with the terminal while it was theirs, at every prompt it is the shell's
again, with the modes that it had when the shell was started. -/
theorem terminal_restored (modes : Modes)
    (reached : Reaches consoleStep AttributedConsole (initialConsole modes) console)
    (prompting : console.shell.control.prompting = true) :
    console.foreground = shellGroup ∧ console.modes = modes :=
  (reached.invariant (Governed modes) (.start modes) fun _ _ _ governed attributed taken =>
    governed.step attributed taken).held prompting

end Runs

def rawMode : List (ConsoleEvent Nat) :=
  [.shell (.main .unqueued), .shell (.main .removed),
    .shell (.main (.startJob { backgroundJob 1 with fg := true })),
    .shell (.main (.forked 100)), .took, .shell (.main .started), .configured 100 7,
    .passed 100 300]

def rawModeEnds : List (ConsoleEvent Nat) :=
  rawMode ++ [.shell (.child (.exited 100)), .shell (.main (.waited (some 100))),
    .shell (.main (.waited none)), .shell (.main .regained)]

theorem terminal_restored_rawMode :
    let during := arrival consoleStep AttributedConsole (initialConsole 0) rawMode
    let after := arrival consoleStep AttributedConsole (initialConsole 0) rawModeEnds
    (during.foreground = 300 ∧ during.modes = 7) ∧
      after.foreground = shellGroup ∧ after.modes = 0 :=
  ⟨by decide +kernel,
    terminal_restored 0 (reaches_arrival rawModeEnds) (by decide +kernel)⟩

end Akiso.Shell
