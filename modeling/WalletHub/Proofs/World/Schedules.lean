import WalletHub.Proofs.Hub.Tracking
import WalletHub.Proofs.Memory.Timing
import WalletHub.Proofs.Subscription.Asking
import WalletHub.Proofs.World.Steps

/-!
# When callbacks are delivered

What the user does while a hub stays open can be interleaved with the deliveries of callbacks and the runs of
the hub's task in many ways. Each way is a schedule, a list of beats. All schedules of the same inputs that
deliver everything in the end lead to the same newest values on all channels and to the same managed ids
(`Run.schedules_agree`).

The reason is what a hub heads for (`Heads`): the system, the channels and the ids as they will be once all
that waits has been delivered. No delivery changes it, and an input changes it in the same way whether or not
something waits. Only the channel of the wallets is not part of it, since the wallets are published as they
are at the delivery and not as they were at the command; but where nothing waits its newest value is the list
that the system has.

## What is proved

* `Prospect.of_run`, `Prospect.afterAll_congr`: a command does the same whether or not something waits, and
  inputs that stamp transfers with the same instants lead to the same, at whatever times they come.
* `Heads.deliver`, `Heads.beat`: a delivery changes nothing about what the hub heads for, and a beat changes it
  only by its input.
* `Heads.perform`: a schedule leads to what its inputs make of it.
* `Heads.arrived`: where nothing waits the hub has come to what it headed for.
* `Run.schedules_agree`: two schedules of the same inputs agree.

`late_agrees_with_eager` compares delivering at once with delivering in the end.
-/

namespace WalletHub

/-! ### Schedules -/

/-- What the user does while a hub stays open: a command for its system, or a change of the enabled ids. -/
inductive Input where
  | command (c : MemorySystem.Command)
  | enable (id : String)
  | disable (id : String)
  | setEnabled (ids : List String)

/-- The input as an action. -/
def Input.action : Input → Action
  | .command c => .command c
  | .enable id => .enable id
  | .disable id => .disable id
  | .setEnabled ids => .setEnabled ids

/-- What happens at one beat of a schedule. -/
inductive Beat where
  | input (i : Input)
  /-- The clock shows this time of day. -/
  | clock (time : Instant)
  /-- The oldest job that waits is delivered. -/
  | job
  /-- The next callback of the oldest job is delivered, or the job ends. -/
  | callback
  /-- The hub's task runs. -/
  | task

/-- The input of a beat. -/
def Beat.input? : Beat → Option Input
  | .input i => some i
  | .clock _ | .job | .callback | .task => none

/-- The inputs of a schedule, in order. -/
def inputs (beats : List Beat) : List Input := beats.filterMap Beat.input?

namespace World

/-- The world after a beat. -/
def beat (w : MemoryWorld) : Beat → MemoryWorld
  | .input i => (w.act i.action).2
  | .clock time => { w with wall := time }
  | .job => w.deliverNext
  | .callback => w.deliverOne.2
  | .task => w.runSession

/-- The world after a schedule. -/
def perform (w : MemoryWorld) (beats : List Beat) : MemoryWorld := beats.foldl beat w

/-- The instant with which a beat stamps a transfer, if it does. -/
def stamped (w : MemoryWorld) : Beat → List Instant
  | .input (.command c) => if w.lastSystem.any fun s => s.confirms c then [w.wall] else []
  | _ => []

/-- The instants with which the commands of a schedule stamp transfers. -/
def stamps (w : MemoryWorld) : List Beat → List Instant
  | [] => []
  | b :: beats => w.stamped b ++ stamps (w.beat b) beats

end World

/-! ### The channels beside that of the wallets -/

namespace Board

/-- The channels with that of the wallets left blank. -/
def blank (b : Board) : Board := { b with wallets := .empty }

/-- What a callback says, beside the list of wallets. -/
def learn (c : Callback) (b : Board) : Board := (b.receive [] c).blank

theorem blank_foldl_offerSync (states : List SyncState) (b : Board) :
    (states.foldl (fun b s => b.offerSync s) b).blank = states.foldl (fun b s => b.offerSync s) b.blank := by
  induction states generalizing b with
  | nil => rfl
  | cons s states ih => exact ih (b.offerSync s)

/-- Whatever the wallets are when a callback is delivered, it says the same beside them. -/
theorem blank_receive (wallets : List Wallet) (b : Board) (c : Callback) :
    (b.receive wallets c).blank = b.blank.learn c := by
  cases c with
  | system | network | transfer => rfl
  | manager m event =>
    rw [receive, learn, receive, blank_foldl_offerSync, blank_foldl_offerSync]
    rfl
  | wallet m w event =>
    cases h : event.transfer? with
    | none =>
      simp only [receive, learn, h]
      rfl
    | some t =>
      simp only [receive, learn, h]
      rfl

/-- The newest values on all channels are the same. -/
structure SameNewest (b b' : Board) : Prop where
  system : b.system.latest = b'.system.latest
  account : b.account.latest = b'.account.latest
  wallets : b.wallets.latest = b'.wallets.latest
  sync (code : String) : (b.sync.get code).latest = (b'.sync.get code).latest
  transfers (code : String) : (b.transfers.get code).latest = (b'.transfers.get code).latest
  updates (code : String) : (b.updates.get code).latest = (b'.updates.get code).latest

theorem SameNewest.of_blank {b b' : Board} (h : b.blank = b'.blank) (wallets : b.wallets.latest = b'.wallets.latest) :
    b.SameNewest b' := by
  obtain ⟨system, account, ws, sync, transfers, updates⟩ := b
  obtain ⟨system', account', ws', sync', transfers', updates'⟩ := b'
  simp only [blank, Board.mk.injEq, true_and] at h
  obtain ⟨rfl, rfl, rfl, rfl, rfl⟩ := h
  exact ⟨rfl, rfl, wallets, fun _ => rfl, fun _ => rfl, fun _ => rfl⟩

end Board

/-! ### What a hub heads for -/

/-- A system for which nothing waits, the channels of its hub beside that of the wallets, and the ids. -/
structure Prospect where
  system : MemorySystem
  board : Board
  tracker : Tracker
  provider : Provider

namespace Prospect

/-- What will be once all that waits for a system has been delivered. -/
def of (s : MemorySystem) (b : Board) (t : Tracker) (p : Provider) : Prospect :=
  { system := { s with queue := [] }
    board := s.queue.flatten.foldl (fun b c => b.learn c) b.blank
    tracker := s.queue.flatten.foldl (fun t c => t.learn c) t
    provider := p }

/-- What will be after an input at the instant `now`. -/
def after (x : Prospect) (now : Instant) : Input → Prospect
  | .command c => match MemorySystem.run now c x.system with
    | .ok s => .of s x.board x.tracker x.provider
    | .error _ => x
  | .enable id => { x with provider := x.provider.enable id }
  | .disable id => { x with provider := x.provider.disable id }
  | .setEnabled ids => { x with provider := x.provider.set ids }

/-- What will be after a beat. Only an input makes a difference. -/
def beat (x : Prospect) (now : Instant) (b : Beat) : Prospect :=
  match b.input? with
  | some i => x.after now i
  | none => x

/-- The instant with which an input stamps a transfer, if it does. -/
def stamped (x : Prospect) (now : Instant) : Input → List Instant
  | .command c => if x.system.confirms c then [now] else []
  | _ => []

/-- A callback that is delivered is no longer to come. -/
theorem of_deliver {s : MemorySystem} {callback : Callback} {job : Job} {jobs : List Job}
    (hqueue : s.queue = (callback :: job) :: jobs) (b : Board) (t : Tracker) (p : Provider) :
    of s b t p = of { s with queue := job :: jobs } (b.receive s.wallets callback) (t.learn callback) p := by
  simp only [of, hqueue, Board.blank_receive, List.flatten_cons, List.cons_append, List.foldl_cons]

/-- Neither is a job that has ended. -/
theorem of_finish {s : MemorySystem} {jobs : List Job} (hqueue : s.queue = [] :: jobs) (b : Board) (t : Tracker)
    (p : Provider) : of s b t p = of { s with queue := jobs } b t p := by
  simp only [of, hqueue, List.flatten_cons, List.nil_append]

theorem blank_foldl_learn (cs : List Callback) (b : Board) :
    (cs.foldl (fun b c => b.learn c) b.blank).blank = cs.foldl (fun b c => b.learn c) b.blank := by
  induction cs generalizing b with
  | nil => rfl
  | cons c cs ih => exact ih (b.blank.receive [] c)

/-- **It makes no difference to a command whether something waits.** -/
theorem of_run (now : Instant) (c : MemorySystem.Command) (s : MemorySystem) (b : Board) (t : Tracker)
    (p : Provider) : (of s b t p).after now (.command c) =
      match MemorySystem.run now c s with
      | .ok s' => of s' b t p
      | .error _ => of s b t p := by
  have hbehind := MemorySystem.run_behind s.queue now c { s with queue := [] }
  have hs : MemorySystem.behind s.queue { s with queue := [] } = s := by
    simp only [MemorySystem.behind, List.append_nil]
  rw [hs] at hbehind
  have hsystem : (of s b t p).system = { s with queue := [] } := rfl
  rw [hbehind, after, hsystem]
  cases MemorySystem.run now c { s with queue := [] } with
  | error e => rfl
  | ok bare =>
    show of bare (of s b t p).board (of s b t p).tracker p = of (bare.behind s.queue) b t p
    simp only [of, MemorySystem.behind, List.flatten_append, List.foldl_append, blank_foldl_learn]

/-- Only where an input stamps a transfer does it matter when it comes. -/
theorem after_congr {x : Prospect} {now now' : Instant} {i : Input} (same : x.stamped now i = x.stamped now' i) :
    x.after now i = x.after now' i := by
  cases i with
  | command c =>
    have htime (hconfirms : x.system.confirms c = true) : now = now' := by
      simpa only [stamped, hconfirms, if_true, List.cons.injEq, and_true] using same
    rw [after, after, MemorySystem.run_congr htime]
  | enable | disable | setEnabled => rfl

/-- How many stamps there are does not depend on the time. -/
theorem length_stamped (x : Prospect) (now now' : Instant) (i : Input) :
    (x.stamped now i).length = (x.stamped now' i).length := by
  cases i with
  | command c =>
    simp only [stamped]
    split <;> rfl
  | enable | disable | setEnabled => rfl

/-- What will be after some inputs, each at its time. -/
def afterAll (x : Prospect) (timed : List (Input × Instant)) : Prospect :=
  timed.foldl (fun x i => x.after i.2 i.1) x

/-- The instants with which the inputs stamp transfers. -/
def stamps (x : Prospect) : List (Input × Instant) → List Instant
  | [] => []
  | (i, now) :: timed => x.stamped now i ++ (x.after now i).stamps timed

/-- **Inputs with the same stamps lead to the same**, at whatever times they come. -/
theorem afterAll_congr {x : Prospect} {timed timed' : List (Input × Instant)}
    (same : timed.map Prod.fst = timed'.map Prod.fst) (hstamps : x.stamps timed = x.stamps timed') :
    x.afterAll timed = x.afterAll timed' := by
  induction timed generalizing x timed' with
  | nil =>
    obtain rfl := List.map_eq_nil_iff.mp same.symm
    rfl
  | cons first timed ih =>
    obtain ⟨i, now⟩ := first
    cases timed' with
    | nil => exact nomatch same
    | cons first' timed' =>
      obtain ⟨i', now'⟩ := first'
      obtain ⟨rfl, hrest⟩ := List.cons.inj same
      obtain ⟨hfirst, hothers⟩ := List.append_inj hstamps (x.length_stamped now now' i)
      have hafter := after_congr hfirst
      rw [← hafter] at hothers
      exact (ih hrest hothers).trans (congrArg (afterAll · timed') hafter)

end Prospect

/-! ### Beats -/

/-- Where nothing waits the list that an open hub has published last is the one of its system. -/
theorem Hub.Announced.published {w : MemoryWorld} {h : Hub MemorySystem} (announced : h.Announced)
    (hub : w.hub = some h) (isOpen : h.isOpen = true) (settled : w.waiting = 0) :
    ∃ s, h.handle = some s ∧ s.queue = [] ∧ h.board.wallets.latest = some s.wallets := by
  obtain ⟨s, hs, hannounced⟩ := announced isOpen
  have hqueue := World.queue_of_waiting hub hs settled
  refine ⟨s, hs, hqueue, hannounced.resolve_right ?_⟩
  rintro ⟨job, hjob, -⟩
  rw [hqueue] at hjob
  exact nomatch hjob

/-- The hub of a world is open, its wallets are announced, and the probe will not break off. Once all that
waits has been delivered the hub will have come to `x`. -/
structure Heads (w : MemoryWorld) (h : Hub MemorySystem) (s : MemorySystem) (x : Prospect) : Prop where
  hub : w.hub = some h
  isOpen : h.isOpen = true
  kept : h.handle = some s
  announced : h.Announced
  calm : w.trap = none
  prospect : Prospect.of s h.board w.tracker w.provider = x

namespace Heads

variable {w w' : MemoryWorld} {h : Hub MemorySystem} {s : MemorySystem} {x : Prospect}

/-- A command runs on the system of the hub, or fails and changes nothing. -/
theorem command (hw : Heads w h s x) (c : MemorySystem.Command) :
    ∃ h' s', Heads (w.act (.command c)).2 h' s' (x.after w.wall (.command c)) := by
  have hmemory : w.memorySystem? = some s := by
    simp only [World.memorySystem?, World.lastSystem, hw.hub, Option.bind_some, hw.kept, Steering.memory?]
  have hset (w' : MemoryWorld) (hhub : w'.hub = some h) (s' : MemorySystem) :
      w'.setMemorySystem s' = { w' with hub := some { h with handle := some s' } } := by
    simp only [World.setMemorySystem, World.lastSystem, hhub, Option.bind_some, hw.kept, Steering.ofMemory,
      World.setSystem_of_handle hhub hw.kept]
  have hrun := Prospect.of_run w.wall c s h.board w.tracker w.provider
  rw [hw.prospect] at hrun
  rw [hrun]
  obtain ⟨result, hresult⟩ : ∃ result, MemorySystem.run w.wall c s = result := ⟨_, rfl⟩
  have hdone {s' : MemorySystem} (hs' : result = .ok s') {w' : MemoryWorld}
      (hhub : w'.hub = some { h with handle := some s' }) (hcalm : w'.trap = w.trap)
      (htracker : w'.tracker = w.tracker) (hprovider : w'.provider = w.provider) :
      ∃ h' s'', Heads w' h' s'' (.of s' h.board w.tracker w.provider) := by
    have hannounced := hw.announced.change (.command s s' w.wall c hw.kept (hresult.trans hs'))
    refine ⟨_, s', hhub, hw.isOpen, rfl, hannounced, hcalm.trans hw.calm, ?_⟩
    rw [htracker, hprovider]
  rw [hresult]
  cases c with
  | disconnect =>
    obtain rfl := hresult
    simp only [World.act, World.runCommand_eq, hmemory, hset w hw.hub]
    exact hdone rfl rfl rfl rfl rfl
  | addWallet currency =>
    obtain rfl := hresult
    simp only [World.act, World.runCommand_eq, hmemory, hset w hw.hub]
    exact hdone rfl rfl rfl rfl rfl
  | _ =>
    cases result with
    | ok s' =>
      simp only [World.act, World.runCommand_eq, hmemory, hresult, hset { w with wall := w.wall.later 1 } hw.hub]
      exact hdone rfl rfl rfl rfl rfl
    | error e =>
      simp only [World.act, World.runCommand_eq, hmemory, hresult]
      exact ⟨h, s, hw⟩

theorem input (hw : Heads w h s x) (i : Input) : ∃ h' s', Heads (w.act i.action).2 h' s' (x.after w.wall i) := by
  cases i with
  | command c => exact hw.command c
  | enable id | disable id | setEnabled ids =>
    refine ⟨h, s, hw.hub, hw.isOpen, hw.kept, hw.announced, hw.calm, ?_⟩
    rw [← hw.prospect]
    rfl

/-- **A delivery changes nothing about what the hub heads for.** -/
theorem deliver (hw : Heads w h s x) : ∃ h' s', Heads w.deliverOne.2 h' s' x := by
  have hlast : w.lastSystem = some s := by
    simp only [World.lastSystem, hw.hub, Option.bind_some, hw.kept]
  have hset (s' : MemorySystem) := World.setSystem_of_handle hw.hub hw.kept s'
  cases hqueue : s.queue with
  | nil =>
    simp only [World.deliverOne, hlast, hqueue]
    exact ⟨h, s, hw⟩
  | cons job jobs =>
    cases job with
    | nil =>
      simp only [World.deliverOne, hlast, hqueue, hset]
      have hannounced := hw.announced.change (.finish s jobs hw.kept hqueue)
      refine ⟨_, _, rfl, hw.isOpen, rfl, hannounced, hw.calm, ?_⟩
      rw [← hw.prospect, Prospect.of_finish hqueue]
    | cons callback job =>
      have hannounced := hw.announced.change (.deliver s callback job jobs hw.kept hqueue)
      obtain ⟨hopen, hkept, -⟩ :=
        Hub.receive_fields callback { h with handle := some { s with queue := job :: jobs } }
      have hcalm (hub : Option (Hub MemorySystem)) : World.snag callback { w with hub := hub } = none :=
        World.snag_of_calm hw.calm callback
      simp only [World.deliverOne, hlast, hqueue, hset]
      rw [World.deliver_of_handle rfl rfl, hcalm]
      refine ⟨_, _, rfl, hopen.trans hw.isOpen, hkept, hannounced, hw.calm, ?_⟩
      rw [Hub.board_receive callback rfl, if_pos hw.isOpen, ← hw.prospect, Prospect.of_deliver hqueue]

theorem job (hw : Heads w h s x) : ∃ h' s', Heads w.deliverNext h' s' x := by
  obtain ⟨past, run⟩ := World.exists_run_deliverCount 1 w
  have hkeep (w : MemoryWorld) (m : Move) (r : Reply) (w' : MemoryWorld) (hw : ∃ h s, Heads w h s x)
      (hm : delivering w m r) (moved : w.move m = (r, w')) : ∃ h s, Heads w' h s x := by
    obtain ⟨h, s, hw⟩ := hw
    obtain rfl : m = .deliver := hm
    have hafter : w.deliverOne.2 = w' := congrArg Prod.snd moved
    exact hafter ▸ hw.deliver
  exact (run.strengthen (fun w => ∃ h s, Heads w h s x) ⟨h, s, hw⟩ hkeep).1

/-- Neither does the task, which publishes nothing but the wallets. -/
theorem task (hw : Heads w h s x) : ∃ h' s', Heads w.runSession h' s' x := by
  obtain ⟨hopen, hkept, -⟩ := Hub.runSession_fields w.provider w.tracker h
  have hboard : (h.runSession w.provider w.tracker).1.board.blank = h.board.blank := by
    rcases Hub.board_runSession w.provider w.tracker h with hsame | ⟨s', c, -, -, hboard⟩
    · rw [hsame]
    · rw [hboard]
      rfl
  have hannounced := hw.announced.change (.task w.provider w.tracker)
  simp only [World.runSession, hw.hub]
  refine ⟨_, s, rfl, hopen.trans hw.isOpen, hkept.trans hw.kept, hannounced, hw.calm, ?_⟩
  rw [← hw.prospect]
  simp only [Prospect.of, World.report, hboard]

/-- **A beat changes what the hub heads for only by its input.** -/
theorem beat (hw : Heads w h s x) (b : Beat) : ∃ h' s', Heads (w.beat b) h' s' (x.beat w.wall b) := by
  cases b with
  | input i => exact hw.input i
  | clock time => exact ⟨h, s, hw.hub, hw.isOpen, hw.kept, hw.announced, hw.calm, hw.prospect⟩
  | job => exact hw.job
  | callback => exact hw.deliver
  | task => exact hw.task

theorem stamped_eq (hw : Heads w h s x) (i : Input) : w.stamped (.input i) = x.stamped w.wall i := by
  cases i with
  | command c =>
    have hconfirms := MemorySystem.confirms_behind s.queue { s with queue := [] } c
    have hs : MemorySystem.behind s.queue { s with queue := [] } = s := by
      simp only [MemorySystem.behind, List.append_nil]
    have hsystem : x.system = { s with queue := [] } := by
      rw [← hw.prospect]
      rfl
    rw [hs] at hconfirms
    simp only [World.stamped, World.lastSystem, hw.hub, Option.bind_some, hw.kept, Option.any_some,
      Prospect.stamped, hsystem, hconfirms]
  | enable | disable | setEnabled => rfl

/-- **A schedule leads to what its inputs make of what the hub heads for**, each at the time at which it
comes. -/
theorem perform (hw : Heads w h s x) (beats : List Beat) :
    ∃ h' s' timed, timed.map Prod.fst = inputs beats ∧ x.stamps timed = w.stamps beats ∧
      Heads (w.perform beats) h' s' (x.afterAll timed) := by
  induction beats generalizing w h s x with
  | nil => exact ⟨h, s, [], rfl, rfl, hw⟩
  | cons b beats ih =>
    obtain ⟨h₁, s₁, hnext⟩ := hw.beat b
    obtain ⟨h', s', timed, hinputs, hstamps, hend⟩ := ih hnext
    cases b with
    | input i =>
      refine ⟨h', s', (i, w.wall) :: timed, congrArg (i :: ·) hinputs, ?_, hend⟩
      rw [World.stamps, hw.stamped_eq, ← hstamps]
      rfl
    | clock | job | callback | task => exact ⟨h', s', timed, hinputs, hstamps, hend⟩

/-- **Where nothing waits the hub has come to what it headed for.** -/
theorem arrived (hw : Heads w h s x) (settled : w.waiting = 0) :
    h.board.blank = x.board ∧ h.board.wallets.latest = some x.system.wallets ∧ w.tracker = x.tracker := by
  obtain ⟨last, hlast, hqueue, hlatest⟩ := hw.announced.published hw.hub hw.isOpen settled
  obtain rfl := Option.some.inj (hlast.symm.trans hw.kept)
  rw [← hw.prospect]
  simp only [Prospect.of, hqueue, List.flatten_nil, List.foldl_nil, hlatest, and_self]

end Heads

/-- The wallets of a hub are announced as long as no callback breaks off. -/
theorem Run.announced {config : Config} {factory : MemoryFactory} {disk : Disk} {wall : Instant}
    {enabled : List String} {withHub : Bool} {past : Past} {w : MemoryWorld}
    (run : Run unbroken (.start config factory disk wall enabled withHub) past w) {h : Hub MemorySystem}
    (hub : w.hub = some h) : h.Announced := by
  have hcreate (config : Config) : (Hub.create config : Hub MemorySystem).Announced := fun hopen => nomatch hopen
  exact run.hub_invariant Hub.Announced (fun h hh => World.eq_create_of_start hh ▸ hcreate config) hcreate
    (fun _ _ _ ha hc => ha.change hc) (fun ok broke _ _ _ _ => absurd broke ok) h hub

/-- **When callbacks are delivered makes no difference to the outcome.** Two schedules of the same inputs, in a
world in which the hub is open and no callback breaks off, interleave them with deliveries and runs of the task
in any way. If they stamp transfers with the same instants and nothing waits after either of them, then the
newest values on all channels are the same after both, and so are the managed ids. Neither the wallets, nor
what waited before, nor whether the task has run in the end matters to it. -/
theorem Run.schedules_agree {config : Config} {factory : MemoryFactory} {disk : Disk} {wall : Instant}
    {enabled : List String} {withHub : Bool} {past : Past} {w : MemoryWorld}
    (run : Run unbroken (.start config factory disk wall enabled withHub) past w) {h : Hub MemorySystem}
    (hub : w.hub = some h) (isOpen : h.isOpen = true) (calm : w.trap = none) {beats beats' : List Beat}
    (same : inputs beats = inputs beats') (stamps : w.stamps beats = w.stamps beats')
    (settled : (w.perform beats).waiting = 0) (settled' : (w.perform beats').waiting = 0) :
    ∃ h₁ h₂, (w.perform beats).hub = some h₁ ∧ (w.perform beats').hub = some h₂ ∧
      h₁.isOpen = true ∧ h₂.isOpen = true ∧ h₁.board.SameNewest h₂.board ∧
      (w.perform beats).tracker.ids = (w.perform beats').tracker.ids := by
  have hannounced := run.announced hub
  obtain ⟨s, hkept, -⟩ := hannounced isOpen
  have hw : Heads w h s (.of s h.board w.tracker w.provider) := ⟨hub, isOpen, hkept, hannounced, calm, rfl⟩
  obtain ⟨h₁, s₁, timed, hinputs, hstamps, hend⟩ := hw.perform beats
  obtain ⟨h₂, s₂, timed', hinputs', hstamps', hend'⟩ := hw.perform beats'
  have hsame := Prospect.afterAll_congr ((hinputs.trans same).trans hinputs'.symm)
    ((hstamps.trans stamps).trans hstamps'.symm)
  rw [← hsame] at hend'
  obtain ⟨hboard, hlatest, htracker⟩ := hend.arrived settled
  obtain ⟨hboard', hlatest', htracker'⟩ := hend'.arrived settled'
  refine ⟨h₁, h₂, hend.hub, hend'.hub, hend.isOpen, hend'.isOpen, ?_, ?_⟩
  · exact .of_blank (hboard.trans hboard'.symm) (hlatest.trans hlatest'.symm)
  · rw [htracker, htracker']

/-- An open hub with one wallet, of which all callbacks were delivered. -/
def oneWalletSettled : Past × MemoryWorld :=
  World.play neverOpen
    [.act (.openHub ⟨"alice", ⟨0, 0⟩, [1]⟩), .act (.command (.addWallet ⟨"bitcoin", "btc", "Bitcoin", 8⟩)),
      .deliver, .deliver, .deliver, .deliver, .deliver, .task]

/-- A transfer is submitted and confirmed, and its wallet is enabled in between. -/
def submitted : Input := .command (.submitTransfer "btc" (.create "t1" .zero .sent))

@[inherit_doc submitted]
def confirmed : Input := .command (.changeTransfer "btc" "t1" (.included 7))

/-- Everything is delivered at once. -/
def eager : List Beat :=
  [.input submitted, .job, .task, .input (.enable "bitcoin"), .task, .clock ⟨1600000009, 0⟩, .input confirmed,
    .callback, .callback, .callback, .task]

/-- Everything is delivered in the end, and the clock is elsewhere at first. -/
def late : List Beat :=
  [.clock ⟨1600000005, 0⟩, .input submitted, .input (.enable "bitcoin"), .clock ⟨1600000009, 0⟩,
    .input confirmed, .job, .callback, .job]

/-- Late deliveries publish fewer lists of wallets, but the newest values are the same. -/
theorem late_agrees_with_eager :
    ∃ h₁ h₂, (oneWalletSettled.2.perform eager).hub = some h₁ ∧ (oneWalletSettled.2.perform late).hub = some h₂ ∧
      h₁.board.SameNewest h₂.board ∧ h₁.board.wallets.version = 8 ∧ h₂.board.wallets.version = 7 := by
  have run : Run unbroken _ oneWalletSettled.1 oneWalletSettled.2 := Run.play _ _
    ⟨unbroken_act _ _ _, unbroken_act _ _ _, unbroken_ok _ _, unbroken_ok _ _, unbroken_ok _ _,
      unbroken_ok _ _, unbroken_nothing _ _, unbroken_nothing _ _, trivial⟩
  obtain ⟨h, hub⟩ : ∃ h, oneWalletSettled.2.hub = some h := Option.isSome_iff_exists.mp (by rfl)
  have hopen : oneWalletSettled.2.hub.map Hub.isOpen = some true := by rfl
  rw [hub] at hopen
  have same : inputs eager = inputs late := by rfl
  have stamps : oneWalletSettled.2.stamps eager = oneWalletSettled.2.stamps late := by decide +kernel
  obtain ⟨h₁, h₂, hhub, hhub', -, -, hsame, -⟩ := run.schedules_agree hub (Option.some.inj hopen) (by rfl)
    same stamps (by decide +kernel) (by decide +kernel)
  have hversion : (oneWalletSettled.2.perform eager).hub.map (fun h => h.board.wallets.version) = some 8 := by
    decide +kernel
  have hversion' : (oneWalletSettled.2.perform late).hub.map (fun h => h.board.wallets.version) = some 7 := by
    decide +kernel
  rw [hhub] at hversion
  rw [hhub'] at hversion'
  exact ⟨h₁, h₂, hhub, hhub', hsame, Option.some.inj hversion, Option.some.inj hversion'⟩

end WalletHub
