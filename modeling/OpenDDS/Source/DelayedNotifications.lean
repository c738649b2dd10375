import OpenDDS.Source.SendStrategyFrame

/-!
`send_delayed_notifications` and `add_delayed_notification` of `TransportSendStrategy`
(dds/DCPS/transport/framework/TransportSendStrategy.cpp) over the two arrays that `SendStrategy`
has as one list. An element is what its pointer points to, `none` is the null pointer, and the
result `none` stands for its use.
-/
namespace OpenDDS.Source.DelayedNotifications
open SendStrategy QueueElement

structure Delayed (ε : Type) where
  queue : Nat → Option ε
  modes : Nat → SendMode
  num : Nat

variable {ε : Type}

def addDelayedNotification (mode : SendMode) (element : ε) (d : Delayed ε) : Delayed ε where
  queue := Function.update d.queue d.num (some element)
  modes := Function.update d.modes d.num mode
  num := d.num + 1

def Delayed.clear (i : Nat) (d : Delayed ε) : Delayed ε :=
  { d with queue := Function.update d.queue i none, modes := Function.update d.modes i .notSet }

/-- `!match || match->matches(*sample)`. -/
def selects (matches_ : Option (ε → Bool)) (sample : ε) : Bool :=
  match matches_ with
  | none => true
  | some criteria => criteria sample

/-- The first loop, over `n` entries from `i` on. -/
def collect (select : ε → Bool) : Nat → Nat → Delayed ε → Option (List (ε × SendMode) × Delayed ε)
  | 0, _, d => some ([], d)
  | n + 1, i, d =>
    match d.queue i with
    | none => none
    | some sample =>
      if select sample then
        (collect select n (i + 1) (d.clear i)).map fun r => ((sample, d.modes i) :: r.1, r.2)
      else collect select n (i + 1) d

/-- The second loop. -/
def compact : Nat → Nat → Nat → Delayed ε → Delayed ε
  | 0, _, _, d => d
  | n + 1, i, gap, d =>
    match d.queue i with
    | none => compact n (i + 1) (gap + 1) { d with num := d.num - 1 }
    | some sample =>
      if gap ≠ 0 then
        compact n (i + 1) gap
          { d with
            queue := Function.update d.queue (i - gap) (some sample)
            modes := Function.update d.modes (i - gap) (d.modes i) }
      else compact n (i + 1) gap d

variable [QueueElement ε]

def notifications (transportShutdown : Bool) (samples : List (ε × SendMode)) : List (ε × Fate) :=
  (samples.filter fun s => !transportShutdown || ownedByTransport s.1).map fun s => (s.1, s.2.fate)

/-- `send_delayed_notifications`: its result, and what it notifies and leaves. -/
def sendDelayedNotifications (transportShutdown : Bool) (matches_ : Option (ε → Bool))
    (d : Delayed ε) : Option (Bool × List (ε × Fate) × Delayed ε) :=
  if d.num = 0 then some (false, [], d)
  else if d.num = 1 then
    match d.queue 0 with
    | none => none
    | some sample =>
      if selects matches_ sample then
        some (true, notifications transportShutdown [(sample, d.modes 0)], { d.clear 0 with num := 0 })
      else some (false, [], d)
  else
    match collect (selects matches_) d.num 0 d with
    | none => none
    | some ([], d) => some (false, [], d)
    | some (samples, after) =>
      some (true, notifications transportShutdown samples, compact d.num 0 0 after)

end OpenDDS.Source.DelayedNotifications
