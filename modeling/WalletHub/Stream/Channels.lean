import WalletHub.Currency
import WalletHub.Entries
import WalletHub.Stream.Watch

/-!
# Channels by currency

One channel for every currency code, filed so that the letter case of the code does not matter. A
channel that was never written is empty. `Channels.get_offer` says that a publication reaches the
channel of its code, in any spelling, and no other.

## The model

* `Channels`: the channels that were written, with the folded codes under which they are filed.
* `Channels.get`, `Channels.offer`: reading and writing the channel of a code.
* `Channels.get_congr`, `Channels.get_offer`: the laws, by which nobody has to look at the filing again.

A channel is here a value and not a thing that can be held. `WalletHub.Proofs.Stream.Registry` has the channels
as things, made when a code is looked up for the first time by several users at once, and proves that nothing
else is read.
-/

namespace WalletHub

/-- A channel for every currency code. -/
structure Channels (α : Type) where
  /-- The channels that were written, by the folded code. -/
  entries : List (String × Channel α)
  deriving Repr

namespace Channels

variable {α : Type}

/-- All channels are empty. -/
def empty : Channels α := ⟨[]⟩

/-- The channel of a code. -/
def get (code : String) (cs : Channels α) : Channel α :=
  (cs.entries.lookup (Currency.key code)).getD .empty

/-- Publishes a value on the channel of a code. -/
def offer (code : String) (a : α) (cs : Channels α) : Channels α :=
  ⟨Entries.put (Currency.key code) (Channel.offer a (cs.get code)) cs.entries⟩

/-- Codes that are filed under one form have one channel. -/
theorem get_congr (cs : Channels α) {code code' : String}
    (h : Currency.key code = Currency.key code') : cs.get code = cs.get code' := by
  rw [get, get, h]

theorem get_offer (cs : Channels α) (code code' : String) (a : α) :
    (cs.offer code a).get code' =
      if Currency.key code' = Currency.key code then Channel.offer a (cs.get code)
      else cs.get code' := by
  rw [offer, get, Entries.lookup_put]
  by_cases h : Currency.key code' = Currency.key code <;> simp [h, get]

end Channels

end WalletHub
