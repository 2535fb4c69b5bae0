import WalletHub.WalletSystem

/-!
# A wallet system by script

A wallet system that does nothing of its own: its account and its wallets are what the script says,
and it lines up no callbacks. Callbacks are delivered for it from outside, so that a hub can be
brought into any state.

It is the second instance of `WalletSystem`, and shows what a hub relies on: a statement about hubs over all
systems holds of these too, which tell lies about their account if the script says so. A hub can thus meet a
system of another account in its first opening, or callbacks that contradict the wallets.

## The model

* `ScriptedSystem`: an account and wallets. It can be told nothing.
* `ScriptedFactory`: which account and which wallets new systems show, and whether the next creation fails.
-/

namespace WalletHub

/-- A wallet system that shows what it is given. -/
structure ScriptedSystem where
  account : Account
  wallets : List Wallet
  deriving Repr

instance : WalletSystem ScriptedSystem where
  account := ScriptedSystem.account
  wallets := ScriptedSystem.wallets
  configure _ s := s
  connect s := s
  disconnect d s := ⟨s, d, []⟩
  queue _ := []
  withQueue _ s := s

/-- Creates systems by script. -/
structure ScriptedFactory where
  /-- The account that the systems show, if not the one they were created for. -/
  account : Option Account
  /-- The wallets that the systems show. -/
  wallets : List Wallet
  /-- The next creation fails with this message. -/
  failure : Option String
  deriving Repr

instance : SystemFactory ScriptedFactory ScriptedSystem where
  create params _ f :=
    match f.failure with
    | some message => (.error (.injected message), { f with failure := none })
    | none => (.ok ⟨⟨f.account.getD params.account, f.wallets⟩, []⟩, f)

end WalletHub
