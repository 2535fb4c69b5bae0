import WalletHub.Proofs.Memory.Commands

/-!
# The only wallet of a code

As long as a system has no two wallets of a code, which no command brings about (`Edit.sole`), what happens
to its wallets is one of few things from the view of this code (`Glimpse`): the wallet is added, altered or
removed, it reports how far it has come, or all of it happens aside.

A glimpse is an incident with all wallets but one left out, so that there is at most one wallet to speak of and a
statement about it needs no list. Callbacks about other codes (`Callback.code?`) do not count as told. This is the
form in which a property of one currency is followed through a run, as in `WalletHub.Proofs.Hub.News`.

## What is proved

* `find?_split`, `find?_of_sole`, `others_of_sole`, `first_of_sole`: the wallet of a code is found where it
  stands, and all others are of other codes.
* `eraseP_of_first`, `filter_eraseP_self`, `filter_eraseP_of_disjoint`: what the removal of a wallet does to the
  wallets of its code and of other codes.
* `Edit.sole`: no edit brings a second wallet of a code about.
* `Incident.glimpse`: every incident is one of the glimpses.
-/

namespace WalletHub

/-- The code of the currency that the callback is about. -/
def Callback.code? : Callback → Option String
  | .manager m _ => some m.currency.code
  | .wallet _ w _ | .transfer _ w _ _ => some w.code
  | .system _ | .network .. => none

namespace MemorySystem

/-- There are no two wallets of the code. -/
def Sole (code : String) (ws : List Wallet) : Prop :=
  (ws.filter fun w => w.currency.hasCode code).length ≤ 1

instance (code : String) (ws : List Wallet) : Decidable (Sole code ws) :=
  inferInstanceAs (Decidable (_ ≤ 1))

/-! ### Finding the wallet of a code -/

/-- Codes in other letter case are codes of the same currencies. -/
theorem hasCode_congr {code code' : String} (h : Currency.key code = Currency.key code') (c : Currency) :
    c.hasCode code = c.hasCode code' := by
  rw [Bool.eq_iff_iff, Currency.hasCode_iff, Currency.hasCode_iff, h]

theorem find?_congr {code code' : String} (h : Currency.key code = Currency.key code') (ws : List Wallet) :
    Wallet.find? ws code = Wallet.find? ws code' :=
  congrArg (fun p => ws.find? p) (funext fun w => hasCode_congr h w.currency)

theorem hasCode_of_find? {code : String} {ws : List Wallet} {w : Wallet}
    (h : Wallet.find? ws code = some w) : w.currency.hasCode code = true := by
  have hfound := List.find?_some (p := fun w : Wallet => w.currency.hasCode code) h
  exact hfound

/-- The first wallet of a code is found. -/
theorem find?_split {code : String} {before : List Wallet} {w : Wallet} (after : List Wallet)
    (first : ∀ x ∈ before, x.currency.hasCode code = false) (found : w.currency.hasCode code = true) :
    Wallet.find? (before ++ w :: after) code = some w := by
  have hbefore : before.find? (fun w => w.currency.hasCode code) = none :=
    List.find?_eq_none.mpr fun x hx => by rw [first x hx]; exact Bool.false_ne_true
  simp only [Wallet.find?, List.find?_append, hbefore, Option.none_or, List.find?_cons, found]

/-- A wallet of another code can be changed without changing what is found. -/
theorem find?_split_of_ne {code : String} (before : List Wallet) {w w' : Wallet} (after : List Wallet)
    (currency : w'.currency = w.currency) (other : w.currency.hasCode code = false) :
    Wallet.find? (before ++ w' :: after) code = Wallet.find? (before ++ w :: after) code := by
  simp only [Wallet.find?, List.find?_append, List.find?_cons, currency, other]

/-- Before and after the only wallet of a code there is none. -/
theorem others_of_sole {code : String} {before after : List Wallet} {w : Wallet}
    (sole : Sole code (before ++ w :: after)) (found : w.currency.hasCode code = true) :
    ∀ x ∈ before ++ after, x.currency.hasCode code = false := by
  rw [Sole, List.filter_append, List.filter_cons, if_pos found, List.length_append, List.length_cons] at sole
  have hnone : (before ++ after).filter (fun w => w.currency.hasCode code) = [] := by
    rw [List.filter_append, List.append_eq_nil_iff]
    exact ⟨List.length_eq_zero_iff.mp (by omega), List.length_eq_zero_iff.mp (by omega)⟩
  intro x hx
  rw [← Bool.not_eq_true]
  exact List.filter_eq_nil_iff.mp hnone x hx

theorem first_of_sole {code : String} {before after : List Wallet} {w : Wallet}
    (sole : Sole code (before ++ w :: after)) (found : w.currency.hasCode code = true) :
    ∀ x ∈ before, x.currency.hasCode code = false :=
  fun x hx => others_of_sole sole found x (List.mem_append_left after hx)

/-- The only wallet of a code is the one that is found. -/
theorem find?_of_sole {code : String} {ws : List Wallet} {w : Wallet} (sole : Sole code ws) (hw : w ∈ ws)
    (found : w.currency.hasCode code = true) : Wallet.find? ws code = some w := by
  obtain ⟨before, after, rfl⟩ := List.append_of_mem hw
  exact find?_split after (first_of_sole sole found) found

/-- Moving the managers makes no wallets of a code. -/
theorem sole_connect {code : String} {s : MemorySystem} : Sole code s.connect.wallets ↔ Sole code s.wallets := by
  have hwallets : s.connect.wallets = s.wallets.map fun w => { w with managerState := .connected } := rfl
  rw [Sole, Sole, hwallets, List.filter_map, List.length_map]
  rfl

/-! ### Taking a wallet out -/

/-- The first of a kind is taken out of its place. -/
theorem eraseP_of_first {α : Type} {p : α → Bool} {before : List α} {a : α} (first : ∀ b ∈ before, p b = false)
    (found : p a = true) (after : List α) : (before ++ a :: after).eraseP p = before ++ after := by
  rw [List.eraseP_append_right _ fun b hb => by rw [first b hb]; exact Bool.false_ne_true,
    List.eraseP_cons_of_pos found]

/-- Taking out the first of a kind leaves the others of this kind. -/
theorem filter_eraseP_self {α : Type} (p : α → Bool) (as : List α) :
    (as.eraseP p).filter p = (as.filter p).tail := by
  induction as with
  | nil => rfl
  | cons a as ih =>
    cases ha : p a with
    | true => rw [List.eraseP_cons_of_pos ha, List.filter_cons_of_pos ha, List.tail_cons]
    | false =>
      have hskip : ¬p a = true := by rw [ha]; exact Bool.false_ne_true
      rw [List.eraseP_cons_of_neg hskip, List.filter_cons_of_neg hskip, List.filter_cons_of_neg hskip, ih]

/-- Taking out the first of a kind leaves all of another kind. -/
theorem filter_eraseP_of_disjoint {α : Type} {p q : α → Bool} (as : List α)
    (h : ∀ a, p a = true → q a = false) : (as.eraseP p).filter q = as.filter q := by
  induction as with
  | nil => rfl
  | cons a as ih =>
    cases ha : p a with
    | true =>
      have hother : ¬q a = true := by rw [h a ha]; exact Bool.false_ne_true
      rw [List.eraseP_cons_of_pos ha, List.filter_cons_of_neg hother]
    | false =>
      have hskip : ¬p a = true := by rw [ha]; exact Bool.false_ne_true
      rw [List.eraseP_cons_of_neg hskip, List.filter_cons, List.filter_cons, ih]

/-! ### What is seen of a code -/

/-- **No edit makes a second wallet of a code.** -/
theorem Edit.sole {code : String} {ws ws' : List Wallet} {jobs : List Job} (h : Edit ws jobs ws')
    (sole : Sole code ws) : Sole code ws' := by
  unfold Sole at sole ⊢
  cases h with
  | keep => exact sole
  | add w new blank =>
    rw [List.filter_append, List.length_append]
    cases hw : w.currency.hasCode code with
    | false =>
      rw [List.filter_cons_of_neg (by rw [hw]; exact Bool.false_ne_true), List.filter_nil]
      exact sole
    | true =>
      have hcode : Currency.key w.code = Currency.key code := (Currency.hasCode_iff _ _).mp hw
      have hnone : ws.filter (fun x => x.currency.hasCode code) = [] :=
        List.filter_eq_nil_iff.mpr fun x hx => by
          rw [← hasCode_congr hcode]
          exact List.find?_eq_none.mp new x hx
      rw [hnone, List.length_nil, Nat.zero_add]
      exact List.length_filter_le _ [w]
  | remove code' => exact Nat.le_trans (List.eraseP_sublist.filter _).length_le sole
  | alter before after w w' split currency =>
    subst split
    rw [List.filter_append, List.filter_cons, List.length_append] at sole ⊢
    rw [currency]
    cases hw : w.currency.hasCode code with
    | true => rwa [hw] at sole
    | false => rwa [hw] at sole

/-- What is seen of an incident by someone who looks at the wallet of one code only: the wallet before, the
job, and the wallet after. -/
inductive Glimpse (code : String) (c : Command) : Option Wallet → Job → Option Wallet → Prop where
  /-- It is about other codes, or about none. -/
  | aside (x : Option Wallet) (job : Job)
      (others : ∀ cb ∈ job, ∀ other, cb.code? = some other → Currency.key other ≠ Currency.key code) :
      Glimpse code c x job x
  | added (m : Manager) (w : Wallet) (found : w.currency.hasCode code = true) (same : m.currency = w.currency)
      (blank : w.transfers = []) :
      Glimpse code c none [.system (.managerAdded m), .manager m .created, .wallet m w .created,
        .manager m (.walletAdded w.currency)] (some w)
  | altered (m : Manager) (w w' : Wallet) (job : Job) (found : w.currency.hasCode code = true)
      (same : m.currency = w'.currency) (altered : w.Altered m w' job) :
      Glimpse code c (some w) job (some w')
  | removed (code' : String) (m : Manager) (w : Wallet) (asked : c = .removeWallet code')
      (equal : Currency.key code' = Currency.key code) (same : m.currency = w.currency) :
      Glimpse code c (some w)
        [.wallet m w .deleted, .manager m (.walletDeleted w.currency), .manager m .deleted] none
  | progressed (code' : String) (percent : Single) (time : Option Instant) (m : Manager) (w : Wallet)
      (asked : c = .syncProgress code' percent time) (equal : Currency.key code' = Currency.key code)
      (found : w.currency.hasCode code = true) (same : m.currency = w.currency) :
      Glimpse code c (some w) [.manager m (.syncProgress time percent)] (some w)

/-- The job of an alteration is about the wallet. -/
theorem code?_of_altered {m : Manager} {w w' : Wallet} {job : Job} (same : m.currency = w'.currency)
    (h : w.Altered m w' job) : ∀ cb ∈ job, ∀ other, cb.code? = some other → other = w'.code := by
  have hcode : m.currency.code = w'.code := by rw [same, Wallet.code]
  cases h with
  | balance _ _ told | submitted _ _ told | entered _ _ _ _ _ told | removed _ _ told | moved _ _ told =>
    subst told
    intro cb hcb other hother
    simp only [transferJob, List.mem_cons, List.not_mem_nil, or_false] at hcb
    rcases hcb with rfl | rfl
    all_goals
      obtain rfl := Option.some.inj hother
      first | rfl | exact hcode

/-- What is only about a wallet of another code happens aside. -/
theorem Glimpse.of_other {code : String} {c : Command} {x : Option Wallet} {job : Job} {own : String}
    (hown : Currency.key own ≠ Currency.key code)
    (about : ∀ cb ∈ job, ∀ other, cb.code? = some other → other = own) : Glimpse code c x job x := by
  refine .aside x job ?_
  intro cb hcb other hother
  rw [about cb hcb other hother]
  exact hown

/-- **Every incident is seen in one of these ways**, as long as there are no two wallets of the code. -/
theorem Incident.glimpse {code : String} {c : Command} {s : MemorySystem} {ws : List Wallet} {job : Job}
    (h : Incident c s ws job) (sole : Sole code s.wallets) :
    Glimpse code c (Wallet.find? s.wallets code) job (Wallet.find? ws code) := by
  cases h with
  | announced network =>
    refine .aside _ _ ?_
    intro cb hcb other hother
    simp only [List.mem_cons, List.not_mem_nil, or_false] at hcb
    rcases hcb with rfl | rfl <;> exact nomatch hother
  | added w new blank =>
    by_cases hcode : Currency.key w.code = Currency.key code
    · have hnone : Wallet.find? s.wallets code = none := (find?_congr hcode s.wallets).symm.trans new
      have hfound : w.currency.hasCode code = true := (Currency.hasCode_iff _ _).mpr hcode
      have hfirst : ∀ x ∈ s.wallets, x.currency.hasCode code = false := by
        intro x hx
        rw [← Bool.not_eq_true]
        exact List.find?_eq_none.mp hnone x hx
      rw [hnone, find?_split [] hfirst hfound]
      exact .added _ w hfound rfl blank
    · have hother : w.currency.hasCode code = false := by
        rw [← Bool.not_eq_true, Currency.hasCode_iff]
        exact hcode
      have hsame : Wallet.find? (s.wallets ++ [w]) code = Wallet.find? s.wallets code := by
        simp only [Wallet.find?, List.find?_append, List.find?_cons, hother, List.find?_nil, Option.or_none]
      rw [hsame]
      refine .of_other hcode ?_
      intro cb hcb other hother
      simp only [List.mem_cons, List.not_mem_nil, or_false] at hcb
      rcases hcb with rfl | rfl | rfl | rfl
      · exact nomatch hother
      all_goals exact (Option.some.inj hother).symm
  | altered before after w w' job split altered =>
    rw [split] at sole ⊢
    by_cases hcode : Currency.key w.code = Currency.key code
    · have hfound : w.currency.hasCode code = true := (Currency.hasCode_iff _ _).mpr hcode
      have hfirst := first_of_sole sole hfound
      rw [find?_split after hfirst hfound, find?_split after hfirst (by rwa [altered.currency_eq])]
      exact .altered _ w w' job hfound rfl altered
    · have hother : w.currency.hasCode code = false := by
        rw [← Bool.not_eq_true, Currency.hasCode_iff]
        exact hcode
      rw [find?_split_of_ne before after altered.currency_eq hother]
      have hown : w'.code = w.code := by rw [Wallet.code, altered.currency_eq, Wallet.code]
      exact .of_other (hown ▸ hcode) (code?_of_altered rfl altered)
  | removed code' m w asked found same =>
    have hw : w.currency.hasCode code' = true := hasCode_of_find? found
    have hown : Currency.key w.code = Currency.key code' := (Currency.hasCode_iff _ _).mp hw
    by_cases hcode : Currency.key code' = Currency.key code
    · have hfun : (fun x : Wallet => x.currency.hasCode code') = fun x => x.currency.hasCode code :=
        funext fun x => hasCode_congr hcode x.currency
      have hbefore : Wallet.find? s.wallets code = some w := (find?_congr hcode s.wallets).symm.trans found
      have hafter : Wallet.find? (s.wallets.eraseP fun x => x.currency.hasCode code') code = none := by
        rw [Wallet.find?, ← List.head?_filter, hfun, filter_eraseP_self, List.head?_eq_none_iff]
        exact List.length_eq_zero_iff.mp (by rw [List.length_tail]; exact Nat.sub_eq_zero_of_le sole)
      rw [hbefore, hafter]
      exact .removed code' m w asked hcode same
    · have hsame : Wallet.find? (s.wallets.eraseP fun x => x.currency.hasCode code') code =
          Wallet.find? s.wallets code := by
        rw [Wallet.find?, Wallet.find?, ← List.head?_filter, ← List.head?_filter, filter_eraseP_of_disjoint]
        intro x hx
        rw [← Bool.not_eq_true, Currency.hasCode_iff, (Currency.hasCode_iff _ _).mp hx]
        exact hcode
      rw [hsame]
      have hne : Currency.key w.code ≠ Currency.key code := hown ▸ hcode
      refine .of_other hne ?_
      intro cb hcb other hother
      simp only [List.mem_cons, List.not_mem_nil, or_false] at hcb
      have hm : m.currency.code = w.code := by rw [same, Wallet.code]
      rcases hcb with rfl | rfl | rfl
      all_goals
        obtain rfl := Option.some.inj hother
        first | rfl | exact hm
  | progressed code' percent time w asked found =>
    have hw : w.currency.hasCode code' = true := hasCode_of_find? found
    have hown : Currency.key w.code = Currency.key code' := (Currency.hasCode_iff _ _).mp hw
    by_cases hcode : Currency.key code' = Currency.key code
    · have hsame : Wallet.find? s.wallets code = some w := (find?_congr hcode s.wallets).symm.trans found
      rw [hsame]
      exact .progressed code' percent time _ w asked hcode (by rw [← hasCode_congr hcode, hw]) rfl
    · have hne : Currency.key w.code ≠ Currency.key code := hown ▸ hcode
      refine .of_other hne ?_
      intro cb hcb other hother
      obtain rfl := List.mem_singleton.mp hcb
      exact (Option.some.inj hother).symm

end MemorySystem

end WalletHub
