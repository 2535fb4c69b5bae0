import WalletHub.Text.Fold

/-!
# Currencies and networks

A currency has an identifier, unique among all currencies that the wallet system knows, and a short
code by which users and channels name it. Both are compared without regard to letter case.

A code is folded by `Currency.key` before anything is filed under it. The comparison of codes is another
function, `Currency.hasCode`, which folds nothing; that the two agree is `Currency.hasCode_iff`, and
`Currency.hasId_iff` says the same of identifiers. The name and the number of decimal places of a currency are
only handed on.
-/

namespace WalletHub

/-- A currency that the wallet system knows. -/
structure Currency where
  /-- The identifier, such as `bitcoin-mainnet:__native__`. -/
  id : String
  /-- The short code, such as `btc`. -/
  code : String
  /-- The name for display. -/
  name : String
  /-- How many decimal places one unit is divided into. -/
  decimals : UInt8
  deriving DecidableEq, Repr

namespace Currency

/-- The form under which everything that belongs to a currency code is filed. -/
def key (code : String) : String := Text.fold code

/-- The currency has this code. -/
def hasCode (c : Currency) (code : String) : Bool := Text.sameLetters c.code code

/-- The currency has this identifier. -/
def hasId (c : Currency) (id : String) : Bool := Text.sameLetters c.id id

/-- A currency has a code exactly when the code is filed where the currency's own code is. -/
theorem hasCode_iff (c : Currency) (code : String) : c.hasCode code = true ↔ key c.code = key code :=
  Text.sameLetters_iff_fold_eq c.code code

/-- A currency has an identifier exactly when both are one when folded. -/
theorem hasId_iff (c : Currency) (id : String) :
    c.hasId id = true ↔ Text.fold c.id = Text.fold id :=
  Text.sameLetters_iff_fold_eq c.id id

end Currency

/-- A network that the wallet system can connect to. -/
structure Network where
  /-- The identifier. -/
  uids : String
  /-- The name for display. -/
  name : String
  /-- It carries real value. -/
  mainnet : Bool
  /-- The currency that pays for its use. -/
  currency : Currency
  deriving DecidableEq, Repr

end WalletHub
