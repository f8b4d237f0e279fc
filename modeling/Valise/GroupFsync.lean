import Valise.Library.Runs

/-!
The coalesced fsync barrier: calls take tickets, one of them leads and runs its closure for all the
tickets taken so far, the others wait on the condition variable.
-/

namespace Valise

open Runs

structure GroupFsyncState where
  nextTicket : Nat := 1
  lastFsynced : Nat := 0
  leaderActive : Bool := false
deriving DecidableEq, Repr

/-- Where one call of `fsync` stands. A `ready` call is about to take the mutex at the top of its
loop; a `promoted` one leads and has not entered its closure yet; a `released` one has given up
the lead and is about to wake the waiters. -/
inductive Phase where
  | idle
  | ready (ticket : Nat)
  | waiting (ticket : Nat)
  | promoted (ticket target : Nat)
  | syncing (ticket target : Nat)
  | synced (ticket target : Nat) (result : Bool)
  | released (result : Bool)
  | returned (result : Bool)
deriving DecidableEq, Repr

inductive FsyncEvent (ι : Type) where
  | tookTicket (call : ι)
  | syncBegan (call : ι)
  | syncEnded (call : ι) (result : Bool)
  | returned (call : ι) (result : Bool)
deriving DecidableEq, Repr

/-- The shared state, where every call stands, and what has happened so far, oldest first. The log
is for the statements only. -/
structure GroupFsync (ι : Type) where
  state : GroupFsyncState := {}
  phase : ι → Phase := fun _ => .idle
  log : List (FsyncEvent ι) := []

namespace Phase

def ticket : Phase → Option Nat
  | .ready ticket => some ticket
  | .waiting ticket => some ticket
  | .promoted ticket _ => some ticket
  | .syncing ticket _ => some ticket
  | .synced ticket _ _ => some ticket
  | _ => none

def leads : Phase → Bool
  | .promoted _ _ => true
  | .syncing _ _ => true
  | .synced _ _ _ => true
  | _ => false

def aims : Phase → Option (Nat × Nat)
  | .promoted ticket target => some (ticket, target)
  | .syncing ticket target => some (ticket, target)
  | .synced ticket target _ => some (ticket, target)
  | _ => none

def begun : Phase → Bool
  | .syncing _ _ => true
  | .synced _ _ _ => true
  | .released _ => true
  | .returned _ => true
  | _ => false

/-- What the call's own closure returned, or the call itself once it is over. -/
def ran : Phase → Option Bool
  | .synced _ _ result => some result
  | .released result => some result
  | .returned result => some result
  | _ => none

/-- What `notify_all` does to a call: a waiting one looks at the state again. -/
def woken : Phase → Phase
  | .waiting ticket => .ready ticket
  | phase => phase

@[simp] theorem woken_ticket (phase : Phase) : phase.woken.ticket = phase.ticket := by
  cases phase <;> rfl

@[simp] theorem woken_leads (phase : Phase) : phase.woken.leads = phase.leads := by
  cases phase <;> rfl

@[simp] theorem woken_aims (phase : Phase) : phase.woken.aims = phase.aims := by
  cases phase <;> rfl

@[simp] theorem woken_ran (phase : Phase) : phase.woken.ran = phase.ran := by
  cases phase <;> rfl

@[simp] theorem woken_begun (phase : Phase) : phase.woken.begun = phase.begun := by
  cases phase <;> rfl

@[simp] theorem woken_eq_syncing {phase : Phase} {ticket target : Nat} :
    phase.woken = .syncing ticket target ↔ phase = .syncing ticket target := by
  cases phase <;> simp [woken]

@[simp] theorem woken_eq_synced {phase : Phase} {ticket target : Nat} {result : Bool} :
    phase.woken = .synced ticket target result ↔ phase = .synced ticket target result := by
  cases phase <;> simp [woken]

@[simp] theorem woken_eq_released {phase : Phase} {result : Bool} :
    phase.woken = .released result ↔ phase = .released result := by
  cases phase <;> simp [woken]

@[simp] theorem woken_eq_returned {phase : Phase} {result : Bool} :
    phase.woken = .returned result ↔ phase = .returned result := by
  cases phase <;> simp [woken]

theorem woken_ne_waiting (phase : Phase) (ticket : Nat) : phase.woken ≠ .waiting ticket := by
  cases phase <;> simp [woken]

end Phase

/-- The events occur in the log in this order. -/
def Ordered {ι : Type} (log events : List (FsyncEvent ι)) : Prop :=
  events.Sublist log

/-- Some sync that began after the call took its ticket has succeeded. -/
def Covered {ι : Type} (log : List (FsyncEvent ι)) (call : ι) : Prop :=
  ∃ leader, Ordered log [.tookTicket call, .syncBegan leader, .syncEnded leader true]

section Logs

variable {ι : Type} {log events : List (FsyncEvent ι)} {call : ι}

theorem Ordered.logged (event : FsyncEvent ι) (held : Ordered log events) :
    Ordered (log ++ [event]) events :=
  held.trans (List.sublist_append_left log [event])

theorem Ordered.snoc (event : FsyncEvent ι) (held : Ordered log events) :
    Ordered (log ++ [event]) (events ++ [event]) :=
  held.append (List.Sublist.refl [event])

theorem Ordered.begins (leader : ι) (held : .tookTicket call ∈ log) :
    Ordered (log ++ [.syncBegan leader]) [.tookTicket call, .syncBegan leader] :=
  @Ordered.snoc _ _ [.tookTicket call] _ (List.singleton_sublist.2 held)

theorem Ordered.pair_logged {first second event : FsyncEvent ι}
    (held : Ordered (log ++ [event]) [first, second]) :
    Ordered log [first, second] ∨ (first ∈ log ∧ second = event) := by
  obtain ⟨front, back, joined, frontHeld, backHeld⟩ := List.sublist_append_iff.1 held
  rcases List.sublist_singleton.1 backHeld with rfl | rfl
  · left
    simp only [List.append_nil] at joined
    rw [joined]
    exact frontHeld
  · right
    obtain ⟨rfl, rfl⟩ : front = [first] ∧ second = event := by
      cases front with
      | nil => simp at joined
      | cons head rest => cases rest <;> simp_all
    exact ⟨List.singleton_sublist.1 frontHeld, rfl⟩

theorem Covered.logged (event : FsyncEvent ι) (covered : Covered log call) :
    Covered (log ++ [event]) call := by
  obtain ⟨leader, held⟩ := covered
  exact ⟨leader, held.logged event⟩

end Logs

namespace GroupFsync

variable {ι : Type} [DecidableEq ι]

def moved (barrier : GroupFsync ι) (call : ι) (phase : Phase) : GroupFsync ι :=
  { barrier with phase := Function.update barrier.phase call phase }

def logged (barrier : GroupFsync ι) (event : FsyncEvent ι) : GroupFsync ι :=
  { barrier with log := barrier.log ++ [event] }

/-- The next step of one call; `result` is what its closure returns if the step is the end of it.
A waiting call is blocked, and a call that has returned is over. -/
def advance (barrier : GroupFsync ι) (call : ι) (result : Bool) : GroupFsync ι :=
  let state := barrier.state
  match barrier.phase call with
  | .idle =>
      let ticket := state.nextTicket
      let taken := ({ barrier with state := { state with nextTicket := ticket + 1 } }).logged
        (.tookTicket call)
      if ticket ≤ state.lastFsynced then
        (taken.moved call (.returned true)).logged (.returned call true)
      else taken.moved call (.ready ticket)
  | .ready ticket =>
      if ticket ≤ state.lastFsynced then
        (barrier.moved call (.returned true)).logged (.returned call true)
      else if state.leaderActive then barrier.moved call (.waiting ticket)
      else ({ barrier with state := { state with leaderActive := true } }).moved call
        (.promoted ticket (state.nextTicket - 1))
  | .waiting _ => barrier
  | .promoted ticket target =>
      (barrier.moved call (.syncing ticket target)).logged (.syncBegan call)
  | .syncing ticket target =>
      (barrier.moved call (.synced ticket target result)).logged (.syncEnded call result)
  | .synced _ target result =>
      ({ barrier with state := { state with
          leaderActive := false
          lastFsynced := if result then max state.lastFsynced target else state.lastFsynced } }).moved
        call (.released result)
  | .released result =>
      ({ barrier with phase := fun other => (barrier.phase other).woken }.moved call
        (.returned result)).logged (.returned call result)
  | .returned _ => barrier

inductive Step : GroupFsync ι → GroupFsync ι → Prop where
  | advance {barrier} (call result) : Step barrier (barrier.advance call result)

/-- What the barrier promises. -/
structure Safe (barrier : GroupFsync ι) : Prop where
  durable : ∀ call, barrier.phase call = .returned true → ∃ leader,
    Ordered barrier.log
      [.tookTicket call, .syncBegan leader, .syncEnded leader true, .returned call true]
  oneLeader : ∀ first second, (barrier.phase first).leads = true →
    (barrier.phase second).leads = true → first = second
  once : ∀ call, ¬Ordered barrier.log [.syncBegan call, .syncBegan call]
  honest : ∀ call ran returned, .syncEnded call ran ∈ barrier.log →
    barrier.phase call = .returned returned → returned = ran
  awaited : ∀ call ticket, barrier.phase call = .waiting ticket → ∃ other,
    (barrier.phase other).leads = true ∨ ∃ result, barrier.phase other = .released result

/-- The bookkeeping of tickets. A ticket at most `lastFsynced` is covered by a successful sync that
began after it was taken, and one at most the target of a leader that syncs will be. -/
structure Sound (barrier : GroupFsync ι) : Prop where
  ahead : barrier.state.lastFsynced < barrier.state.nextTicket
  tickets : ∀ call ticket, (barrier.phase call).ticket = some ticket →
    ticket < barrier.state.nextTicket ∧ .tookTicket call ∈ barrier.log
  leader : barrier.state.leaderActive = true ↔ ∃ call, (barrier.phase call).leads = true
  oneLeader : ∀ first second, (barrier.phase first).leads = true →
    (barrier.phase second).leads = true → first = second
  targets : ∀ leader own target, (barrier.phase leader).aims = some (own, target) →
    own ≤ target ∧ target < barrier.state.nextTicket
  syncing : ∀ leader own target, barrier.phase leader = .syncing own target →
    ∀ call ticket, (barrier.phase call).ticket = some ticket → ticket ≤ target →
      Ordered barrier.log [.tookTicket call, .syncBegan leader]
  synced : ∀ leader own target, barrier.phase leader = .synced own target true →
    ∀ call ticket, (barrier.phase call).ticket = some ticket → ticket ≤ target →
      Ordered barrier.log [.tookTicket call, .syncBegan leader, .syncEnded leader true]
  covered : ∀ call ticket, (barrier.phase call).ticket = some ticket →
    ticket ≤ barrier.state.lastFsynced → Covered barrier.log call
  released : ∀ call, barrier.phase call = .released true → Covered barrier.log call
  durable : ∀ call, barrier.phase call = .returned true → ∃ leader,
    Ordered barrier.log
      [.tookTicket call, .syncBegan leader, .syncEnded leader true, .returned call true]
  began : ∀ call, .syncBegan call ∈ barrier.log → (barrier.phase call).begun = true
  once : ∀ call, ¬Ordered barrier.log [.syncBegan call, .syncBegan call]
  ended : ∀ call ran, .syncEnded call ran ∈ barrier.log → (barrier.phase call).ran = some ran
  awaited : ∀ call ticket, barrier.phase call = .waiting ticket →
    barrier.state.leaderActive = true ∨ ∃ other result, barrier.phase other = .released result

section Steps

variable {barrier : GroupFsync ι} {call : ι}

/-- What one step makes of the state, of the phase of its call and of the log. A call returns its
own result only after the waiting calls were woken. -/
inductive Turn (barrier : GroupFsync ι) (call : ι) :
    GroupFsyncState → Phase → Option (FsyncEvent ι) → Prop where
  | takeTicket : barrier.phase call = .idle →
      Turn barrier call { barrier.state with nextTicket := barrier.state.nextTicket + 1 }
        (.ready barrier.state.nextTicket) (some (.tookTicket call))
  | returnCovered {ticket : Nat} : barrier.phase call = .ready ticket →
      ticket ≤ barrier.state.lastFsynced →
      Turn barrier call barrier.state (.returned true) (some (.returned call true))
  | wait {ticket : Nat} : barrier.phase call = .ready ticket →
      barrier.state.leaderActive = true → Turn barrier call barrier.state (.waiting ticket) none
  | promote {ticket : Nat} : barrier.phase call = .ready ticket →
      barrier.state.leaderActive = false →
      Turn barrier call { barrier.state with leaderActive := true }
        (.promoted ticket (barrier.state.nextTicket - 1)) none
  | beginSync {ticket target : Nat} : barrier.phase call = .promoted ticket target →
      Turn barrier call barrier.state (.syncing ticket target) (some (.syncBegan call))
  | endSync {ticket target : Nat} (result : Bool) : barrier.phase call = .syncing ticket target →
      Turn barrier call barrier.state (.synced ticket target result)
        (some (.syncEnded call result))
  | release {ticket target : Nat} {result : Bool} :
      barrier.phase call = .synced ticket target result →
      Turn barrier call { barrier.state with
        leaderActive := false
        lastFsynced := if result then max barrier.state.lastFsynced target
          else barrier.state.lastFsynced } (.released result) none
  | returnReleased {result : Bool} : barrier.phase call = .released result →
      (∀ other ticket, barrier.phase other ≠ .waiting ticket) →
      Turn barrier call barrier.state (.returned result) (some (.returned call result))

def turned (barrier : GroupFsync ι) (call : ι) (state : GroupFsyncState) (phase : Phase)
    (event : Option (FsyncEvent ι)) : GroupFsync ι :=
  ⟨state, Function.update barrier.phase call phase, barrier.log ++ event.toList⟩

omit [DecidableEq ι] in
theorem Ordered.turned {log events : List (FsyncEvent ι)} (event : Option (FsyncEvent ι))
    (held : Ordered log events) : Ordered (log ++ event.toList) events :=
  held.trans (List.sublist_append_left log event.toList)

omit [DecidableEq ι] in
theorem Covered.turned {log : List (FsyncEvent ι)} (event : Option (FsyncEvent ι))
    (covered : Covered log call) : Covered (log ++ event.toList) call := by
  obtain ⟨leader, held⟩ := covered
  exact ⟨leader, Ordered.turned event held⟩

/-- The log grows and the other calls stay where they are, so each part of the bookkeeping is a
matter of the call that moves. -/
theorem Sound.turned (sound : Sound barrier) {state : GroupFsyncState} {phase : Phase}
    {event : Option (FsyncEvent ι)} (turn : Turn barrier call state phase event) :
    Sound (barrier.turned call state phase event) where
  ahead := by
    have := sound.ahead
    have := sound.targets call
    cases turn <;> grind [GroupFsync.turned, Phase.aims]
  tickets other ticket held := by
    have old := sound.tickets other ticket
    simp only [GroupFsync.turned, Function.update_apply] at held ⊢
    cases turn <;> grind [Phase.ticket]
  leader := by
    have := sound.leader
    have := sound.oneLeader call
    simp only [GroupFsync.turned, Function.update_apply]
    cases turn <;> grind [Phase.leads]
  oneLeader first second := by
    have := sound.oneLeader first second
    have := sound.leader
    simp only [GroupFsync.turned, Function.update_apply]
    cases turn <;> grind [Phase.leads]
  targets leader own target := by
    have := sound.targets leader own target
    have := sound.ahead
    have := sound.tickets call
    simp only [GroupFsync.turned, Function.update_apply]
    cases turn <;> grind [Phase.aims, Phase.ticket]
  syncing leader own target held other ticket taken within := by
    have old := sound.syncing leader own target
    have bound := sound.targets leader own target
    have known := sound.tickets other ticket
    simp only [GroupFsync.turned, Function.update_apply] at held taken ⊢
    cases turn <;> grind [Phase.ticket, Phase.aims, Ordered.turned, Ordered.begins]
  synced leader own target held other ticket taken within := by
    have old := sound.synced leader own target
    have bound := sound.targets leader own target
    have began := sound.syncing leader own target
    simp only [GroupFsync.turned, Function.update_apply] at held taken ⊢
    cases turn with
    | endSync result syncing =>
        by_cases same : leader = call
        · have order : Ordered barrier.log [.tookTicket other, .syncBegan leader] := by
            grind [Phase.ticket]
          have ended := order.snoc (.syncEnded leader true)
          grind
        · grind [Phase.ticket, Ordered.turned]
    | _ => grind [Phase.ticket, Phase.aims, Ordered.turned]
  covered other ticket held within := by
    have old := sound.covered other ticket
    have led := sound.synced call
    have := sound.ahead
    simp only [GroupFsync.turned, Function.update_apply] at held within ⊢
    cases turn with
    | release synced => grind [Phase.ticket, Covered]
    | _ => grind [Phase.ticket, Covered.turned]
  released other held := by
    have old := sound.released other
    have led := sound.synced call
    simp only [GroupFsync.turned, Function.update_apply] at held ⊢
    cases turn with
    | release synced =>
        have bound := sound.targets call _ _ (by rw [synced]; rfl)
        grind [Phase.ticket, Covered, Covered.turned]
    | _ => grind [Covered.turned]
  durable other held := by
    rcases eq_or_ne other call with rfl | distinct
    · simp only [GroupFsync.turned, Function.update_self] at held ⊢
      cases turn with
      | returnCovered ready within =>
          obtain ⟨leader, order⟩ := sound.covered other _ (by rw [ready]; rfl) within
          exact ⟨leader, order.snoc _⟩
      | returnReleased released awake =>
          obtain rfl := Phase.returned.inj held
          obtain ⟨leader, order⟩ := sound.released other released
          exact ⟨leader, order.snoc _⟩
      | _ => simp at held
    · simp only [GroupFsync.turned, Function.update_of_ne distinct] at held
      obtain ⟨leader, order⟩ := sound.durable other held
      exact ⟨leader, Ordered.turned event order⟩
  began other held := by
    have old := sound.began other
    simp only [GroupFsync.turned, Function.update_apply] at held ⊢
    cases turn <;> grind [Phase.begun]
  once other twice := by
    have old := sound.once other
    have := sound.began other
    simp only [GroupFsync.turned] at twice
    cases turn <;> grind [Ordered.pair_logged, Phase.begun]
  ended other ran held := by
    have old := sound.ended other ran
    simp only [GroupFsync.turned, Function.update_apply] at held ⊢
    cases turn <;> grind [Phase.ran]
  awaited other ticket held := by
    have old := sound.awaited other ticket
    simp only [GroupFsync.turned, Function.update_apply] at held ⊢
    cases turn with
    | release synced => exact .inr ⟨call, _, if_pos rfl⟩
    | _ => grind

theorem Sound.wakeAll (sound : Sound barrier) :
    Sound { barrier with phase := fun other => (barrier.phase other).woken } where
  ahead := sound.ahead
  tickets := by simpa using sound.tickets
  leader := by simpa using sound.leader
  oneLeader := by simpa using sound.oneLeader
  targets := by simpa using sound.targets
  syncing := by simpa using sound.syncing
  synced := by simpa using sound.synced
  covered := by simpa using sound.covered
  released := by simpa using sound.released
  durable := by simpa using sound.durable
  began := by simpa using sound.began
  once := sound.once
  ended := by simpa using sound.ended
  awaited other ticket held := absurd held (Phase.woken_ne_waiting _ _)

theorem Sound.advance (sound : Sound barrier) (call : ι) (result : Bool) :
    Sound (barrier.advance call result) := by
  have unlogged {barrier : GroupFsync ι} {state : GroupFsyncState} {phase : Phase}
      (sound : Sound barrier) (turn : Turn barrier call state phase none) :
      Sound ⟨state, Function.update barrier.phase call phase, barrier.log⟩ := by
    simpa [GroupFsync.turned] using sound.turned turn
  unfold GroupFsync.advance
  cases phase : barrier.phase call with
  | idle =>
      dsimp only
      rw [if_neg (Nat.not_le.2 sound.ahead)]
      exact sound.turned (.takeTicket phase)
  | ready ticket =>
      dsimp only
      by_cases within : ticket ≤ barrier.state.lastFsynced
      · rw [if_pos within]
        exact sound.turned (.returnCovered phase within)
      · rw [if_neg within]
        cases active : barrier.state.leaderActive with
        | true => exact unlogged sound (.wait phase active)
        | false =>
            have promoted := unlogged sound (.promote phase active)
            exact promoted
  | waiting ticket => exact sound
  | promoted ticket target => exact sound.turned (.beginSync phase)
  | syncing ticket target => exact sound.turned (.endSync result phase)
  | synced ticket target result =>
      have released := unlogged sound (.release phase)
      exact released
  | released result =>
      have woken : (barrier.phase call).woken = .released result := by rw [phase]; rfl
      exact sound.wakeAll.turned
        (.returnReleased woken fun other ticket => Phase.woken_ne_waiting _ _)
  | returned result => exact sound

theorem sound_start : Sound ({} : GroupFsync ι) where
  ahead := Nat.zero_lt_one
  tickets := by simp [Phase.ticket]
  leader := by simp [Phase.leads]
  oneLeader := by simp [Phase.leads]
  targets := by simp [Phase.aims]
  syncing := by simp
  synced := by simp
  covered := by simp [Phase.ticket]
  released := by simp
  durable := by simp
  began := by simp
  once := by simp [Ordered]
  ended := by simp
  awaited := by simp

theorem reachable_sound (reached : Reachable (· = {}) Step barrier) : Sound barrier := by
  refine reached.invariant ?_ ?_
  · rintro start rfl
    exact sound_start
  · rintro before after sound ⟨call, result⟩
    exact sound.advance call result

theorem Sound.safe (sound : Sound barrier) : Safe barrier where
  durable := sound.durable
  oneLeader := sound.oneLeader
  once := sound.once
  honest call ran returned ended finished := by
    have outcome := sound.ended call ran ended
    rw [finished] at outcome
    exact Option.some.inj outcome
  awaited call ticket waiting := by
    rcases sound.awaited call ticket waiting with active | ⟨other, released⟩
    · obtain ⟨leader, leads⟩ := sound.leader.1 active
      exact ⟨leader, .inl leads⟩
    · exact ⟨other, .inr released⟩

end Steps

/-- Every interleaving of any number of calls. -/
theorem fsync_safe (barrier : GroupFsync ι) (reached : Reachable (· = {}) Step barrier) :
    Safe barrier :=
  (reachable_sound reached).safe

/-- The calls named here take one step each, in this order, and every closure succeeds. -/
def scheduled (calls : List ι) : GroupFsync ι :=
  calls.foldl (fun barrier call => barrier.advance call true) {}

theorem scheduled_reachable (calls : List ι) : Reachable (· = {}) Step (scheduled calls) := by
  unfold scheduled
  induction calls using List.reverseRecOn with
  | nil => exact .start rfl
  | append_singleton calls call ih =>
      rw [List.foldl_concat]
      exact .step ih (.advance call true)

/-- The second call waits, and returns on the sync of the first. -/
theorem follower_safe :
    (scheduled [false, true, false, true, false, false, false, false, true]).phase true =
      .returned true ∧
    Safe (scheduled [false, true, false, true, false, false, false, false, true]) :=
  ⟨by decide, fsync_safe _ (scheduled_reachable _)⟩

end GroupFsync

end Valise
