import Nosana.Accounts
import Nosana.Totals

set_option autoImplicit false

/- Token accounts and the token program's transfer. Native accounts and owners with
several signers play no part in the programs and are left out. -/
namespace Nosana

open Checked

structure TokenAccount where
  mint : Pubkey
  owner : Pubkey
  amount : Nat
  delegate : Option Pubkey
  delegatedAmount : Nat
  frozen : Bool
  deriving DecidableEq, Repr

namespace TokenAccount

/-- An account that nobody but its owner can spend from, as every account is opened. -/
abbrev holding (mint owner : Pubkey) (amount : Nat) : TokenAccount :=
  ⟨mint, owner, amount, none, 0, false⟩

/-- The mint and the owner, which no transfer changes. -/
def kind (account : TokenAccount) : Pubkey × Pubkey := (account.mint, account.owner)

/-- The token account without its amount. -/
def form (account : TokenAccount) : TokenAccount := { account with amount := 0 }

/-- Who can move tokens out of the account. -/
def spenders (account : TokenAccount) : List Pubkey := account.owner :: account.delegate.toList

/-- A delegate may spend so much less, and with nothing left is no delegate any more. -/
def delegated (account : TokenAccount) (amount : Nat) : TokenAccount :=
  { account with
    delegate := if account.delegatedAmount - amount = 0 then none else account.delegate
    delegatedAmount := account.delegatedAmount - amount }

/-- Who moves tokens out of an account is its delegate, within the delegated amount, or else its
owner. -/
def authorize (account : TokenAccount) (authority : Pubkey) (amount : Nat) :
    Except Error TokenAccount :=
  if account.delegate = some authority then do
    require (amount ≤ account.delegatedAmount) (.token .insufficientFunds)
    return account.delegated amount
  else do
    require (account.owner = authority) (.token .ownerMismatch)
    return account

/-- What a transfer leaves of an account, apart from the amount. -/
structure Follows (before after : TokenAccount) : Prop where
  kind : after.kind = before.kind
  frozen : after.frozen = before.frozen
  delegate : after.delegate = none ∨ after.delegate = before.delegate

theorem Follows.rfl (account : TokenAccount) : Follows account account :=
  ⟨Eq.refl _, Eq.refl _, Or.inr (Eq.refl _)⟩

theorem Follows.spenders_subset {before after : TokenAccount} (follows : Follows before after) :
    after.spenders ⊆ before.spenders := by
  have owner : after.owner = before.owner := (Prod.mk.inj follows.kind).2
  unfold spenders
  rcases follows.delegate with none | same
  · rw [none, owner]
    exact List.cons_subset_cons _ (List.nil_subset _)
  · rw [same, owner]
    exact List.Subset.refl _

theorem authorize_eq_ok {account left : TokenAccount} {authority : Pubkey} {amount : Nat} :
    account.authorize authority amount = .ok left ↔
      (account.delegate = some authority ∧ amount ≤ account.delegatedAmount ∧
        left = account.delegated amount) ∨
      (account.delegate ≠ some authority ∧ account.owner = authority ∧ left = account) := by
  unfold authorize
  by_cases delegate : account.delegate = some authority
  · simp [delegate, eq_comm (a := left)]
  · simp [delegate, eq_comm (a := left)]

theorem authorize_eq_error {account : TokenAccount} {authority : Pubkey} {amount : Nat}
    {reason : Error} (failed : account.authorize authority amount = .error reason) :
    reason = .token .insufficientFunds ∨ reason = .token .ownerMismatch := by
  unfold authorize at failed
  split at failed
  · simp only [bind_eq_error, require_eq_error, pure_ne_error, and_false, exists_false,
      or_false] at failed
    exact Or.inl failed.2.symm
  · simp only [bind_eq_error, require_eq_error, pure_ne_error, and_false, exists_false,
      or_false] at failed
    exact Or.inr failed.2.symm

/-- The account, apart from the amount, after an amount has been moved out with the signature of
an authority. -/
def charged (account : TokenAccount) (authority : Pubkey) (amount : Nat) : TokenAccount :=
  if account.delegate = some authority ∧ 0 < amount then account.delegated amount else account

@[simp] theorem charged_zero (account : TokenAccount) (authority : Pubkey) :
    account.charged authority 0 = account := if_neg fun spends => lt_irrefl 0 spends.2

theorem map_charged_zero (account : Option TokenAccount) (authority : Pubkey) :
    (account.map fun held => held.charged authority 0) = account := by
  simp only [charged_zero, Option.map_id']

theorem form_charged (account : TokenAccount) (authority : Pubkey) (amount : Nat) :
    (account.charged authority amount).form = account.form.charged authority amount := by
  unfold charged form delegated
  split <;> rfl

/-- It makes no difference in which order amounts are moved out. -/
theorem charged_comm (account : TokenAccount) (authority : Pubkey) (first second : Nat) :
    (account.charged authority first).charged authority second =
      (account.charged authority second).charged authority first := by
  unfold charged delegated
  grind

section

variable {account left : TokenAccount} {authority : Pubkey} {amount : Nat}

theorem charged_of_authorize (success : account.authorize authority amount = .ok left)
    (positive : 0 < amount) : left = account.charged authority amount := by
  unfold charged
  rcases authorize_eq_ok.mp success with ⟨delegate, -, rfl⟩ | ⟨other, -, rfl⟩
  · rw [if_pos ⟨delegate, positive⟩]
  · rw [if_neg fun spends => other spends.1]

theorem follows_of_authorize (success : account.authorize authority amount = .ok left) :
    Follows account left := by
  rcases authorize_eq_ok.mp success with ⟨-, -, rfl⟩ | ⟨-, -, rfl⟩
  · refine ⟨rfl, rfl, ?_⟩
    unfold delegated
    split
    · exact Or.inl rfl
    · exact Or.inr rfl
  · exact .rfl _

/-- Nobody else moves tokens out of an account. -/
theorem mem_spenders_of_authorize (success : account.authorize authority amount = .ok left) :
    authority ∈ account.spenders := by
  unfold spenders
  rcases authorize_eq_ok.mp success with ⟨delegate, -, -⟩ | ⟨-, owner, -⟩
  · rw [delegate]
    exact List.mem_cons_of_mem _ (List.mem_singleton.mpr rfl)
  · rw [owner]
    exact List.mem_cons_self

theorem authorize_of_undelegated (undelegated : account.delegate = none) :
    account.authorize account.owner amount = .ok account := by
  refine authorize_eq_ok.mpr (Or.inr ⟨?_, rfl, rfl⟩)
  rw [undelegated]
  exact (Option.some_ne_none _).symm

end

end TokenAccount

abbrev Tokens := Finmap fun _ : Pubkey => TokenAccount

/-- The supply of the token fits in `u64`. -/
def supplyCap : Nat := 2 ^ 64 - 1

namespace Tokens

def balance (tokens : Tokens) (key : Pubkey) : Nat :=
  match tokens.lookup key with
  | some account => account.amount
  | none => 0

/-- Everything that exists of a mint. -/
def supply (tokens : Tokens) (mint : Pubkey) : Nat :=
  tokens.total fun _ account => if account.mint = mint then account.amount else 0

/-- The token account at an address. -/
def load (tokens : Tokens) (key : Pubkey) : Except Error TokenAccount :=
  get (tokens.lookup key) (.anchor .accountNotInitialized)

def transfer (tokens : Tokens) (source destination authority : Pubkey) (amount : Nat) :
    Except Error Tokens := do
  let sender ← get (tokens.lookup source) (.token .uninitializedAccount)
  let receiver ← get (tokens.lookup destination) (.token .uninitializedAccount)
  require (sender.frozen = false ∧ receiver.frozen = false) (.token .accountFrozen)
  require (amount ≤ sender.amount) (.token .insufficientFunds)
  require (sender.mint = receiver.mint) (.token .mintMismatch)
  let left ← sender.authorize authority amount
  if source = destination then
    return tokens
  else
    require (receiver.amount + amount < 2 ^ 64) (.token .overflow)
    return (tokens.insert source { left with amount := sender.amount - amount }).insert
      destination { receiver with amount := receiver.amount + amount }

theorem balance_of_lookup {tokens : Tokens} {key : Pubkey} {account : TokenAccount}
    (present : tokens.lookup key = some account) : tokens.balance key = account.amount := by
  simp only [balance, present]

theorem balance_of_absent {tokens : Tokens} {key : Pubkey}
    (absent : tokens.lookup key = none) : tokens.balance key = 0 := by
  simp only [balance, absent]

/-- An account that is opened empty changes no balance. -/
theorem balance_insert_empty {tokens : Tokens} {key : Pubkey} (fresh : key ∉ tokens)
    (mint owner other : Pubkey) :
    balance (tokens.insert key (.holding mint owner 0)) other = tokens.balance other := by
  by_cases same : other = key
  · rw [same, balance_of_absent (Finmap.lookup_eq_none.mpr fresh),
      balance_of_lookup (Finmap.lookup_insert _)]
  · simp only [balance, Finmap.lookup_insert_of_ne _ same]

theorem balance_erase_of_ne {tokens : Tokens} {key other : Pubkey} (apart : other ≠ key) :
    balance (tokens.erase key) other = tokens.balance other := by
  simp only [balance, Finmap.lookup_erase_ne apart]

/-- What a successful transfer found and did. -/
theorem transfer_eq_ok {tokens result : Tokens} {source destination authority : Pubkey}
    {amount : Nat} :
    transfer tokens source destination authority amount = .ok result ↔
      ∃ sender receiver, tokens.lookup source = some sender ∧
        tokens.lookup destination = some receiver ∧
        (sender.frozen = false ∧ receiver.frozen = false) ∧ amount ≤ sender.amount ∧
        sender.mint = receiver.mint ∧ ∃ left, sender.authorize authority amount = .ok left ∧
        ((source = destination ∧ result = tokens) ∨
          (source ≠ destination ∧ receiver.amount + amount < 2 ^ 64 ∧
            result = (tokens.insert source { left with amount := sender.amount - amount }).insert
              destination { receiver with amount := receiver.amount + amount })) := by
  unfold transfer
  by_cases self : source = destination
  · simp [self, eq_comm (a := result)]
  · simp [self, eq_comm (a := result)]

/-- A transfer fails with an error of the token program. -/
theorem transfer_ne_panic (tokens : Tokens) (source destination authority : Pubkey) (amount : Nat)
    (fault : Fault) :
    transfer tokens source destination authority amount ≠ .error (.panic fault) := by
  unfold transfer
  iterate 5
    apply bind_ne_error (by simp)
    intro _ _
  apply bind_ne_error
  · intro failed
    rcases TokenAccount.authorize_eq_error failed with same | same <;> cases same
  · intro left _
    split <;> simp

/-- What becomes of every account in a transfer. -/
theorem follows_transfer {tokens result : Tokens} {source destination authority : Pubkey}
    {amount : Nat} (success : transfer tokens source destination authority amount = .ok result)
    {key : Pubkey} {old : TokenAccount} (present : tokens.lookup key = some old) :
    ∃ new, result.lookup key = some new ∧ old.Follows new := by
  obtain ⟨sender, receiver, sent, received, -, -, -, left, authorized, ⟨rfl, rfl⟩ |
    ⟨apart, -, rfl⟩⟩ := transfer_eq_ok.mp success
  · exact ⟨old, present, .rfl old⟩
  · by_cases atDestination : key = destination
    · rw [atDestination, received] at present
      cases present
      rw [atDestination]
      exact ⟨_, Finmap.lookup_insert _, rfl, rfl, Or.inr rfl⟩
    · rw [Finmap.lookup_insert_of_ne _ atDestination]
      by_cases atSource : key = source
      · rw [atSource, sent] at present
        cases present
        rw [atSource]
        have follows := TokenAccount.follows_of_authorize authorized
        exact ⟨_, Finmap.lookup_insert _, follows.kind, follows.frozen, follows.delegate⟩
      · rw [Finmap.lookup_insert_of_ne _ atSource]
        exact ⟨old, present, .rfl old⟩

/-- Only a spender of the source can sign for a transfer. -/
theorem mem_spenders_of_transfer {tokens result : Tokens} {source destination authority : Pubkey}
    {amount : Nat} (success : transfer tokens source destination authority amount = .ok result)
    {sender : TokenAccount} (sent : tokens.lookup source = some sender) :
    authority ∈ sender.spenders := by
  obtain ⟨found, -, inside, -, -, -, -, left, authorized, -⟩ := transfer_eq_ok.mp success
  cases sent.symm.trans inside
  exact TokenAccount.mem_spenders_of_authorize authorized

/-- A transfer takes the amount from one balance and adds it to the other; every
third balance stays. -/
theorem balance_transfer {tokens result : Tokens} {source destination authority : Pubkey}
    {amount : Nat} (success : transfer tokens source destination authority amount = .ok result)
    (key : Pubkey) :
    result.balance key + (if key = source then amount else 0) =
      tokens.balance key + (if key = destination then amount else 0) := by
  obtain ⟨sender, receiver, sent, received, -, funded, -, left, -, ⟨rfl, rfl⟩ | ⟨apart, -, rfl⟩⟩ :=
    transfer_eq_ok.mp success
  · rfl
  · simp only [balance, Finmap.lookup_insert_eq_ite]
    by_cases atDestination : key = destination
    · have notSource : key ≠ source := fun same => apart (same.symm.trans atDestination)
      subst atDestination
      simp [received, notSource]
    · by_cases atSource : key = source
      · subst atSource
        simp only [atDestination, sent, if_false, if_true]
        omega
      · simp [atDestination, atSource]

theorem balance_source {tokens result : Tokens} {source destination authority : Pubkey}
    {amount : Nat} (success : transfer tokens source destination authority amount = .ok result)
    (apart : source ≠ destination) : result.balance source + amount = tokens.balance source := by
  have moved := balance_transfer success source
  rw [if_pos rfl, if_neg apart] at moved
  exact moved

theorem balance_destination {tokens result : Tokens} {source destination authority : Pubkey}
    {amount : Nat} (success : transfer tokens source destination authority amount = .ok result)
    (apart : source ≠ destination) :
    result.balance destination = tokens.balance destination + amount := by
  have moved := balance_transfer success destination
  rw [if_neg (Ne.symm apart), if_pos rfl] at moved
  exact moved

theorem amount_le_balance {tokens result : Tokens} {source destination authority : Pubkey}
    {amount : Nat} (success : transfer tokens source destination authority amount = .ok result) :
    amount ≤ tokens.balance source := by
  obtain ⟨sender, receiver, sent, -, -, funded, -⟩ := transfer_eq_ok.mp success
  rwa [balance_of_lookup sent]

/-- Only the source of a transfer loses tokens. -/
theorem balance_le_of_ne_source {tokens result : Tokens} {source destination authority key : Pubkey}
    {amount : Nat} (success : transfer tokens source destination authority amount = .ok result)
    (other : key ≠ source) : tokens.balance key ≤ result.balance key := by
  have moved := balance_transfer success key
  rw [if_neg other] at moved
  omega

/-- Only the destination of a transfer gains tokens. -/
theorem eq_destination_of_lt {tokens result : Tokens}
    {source destination authority key : Pubkey} {amount : Nat}
    (success : transfer tokens source destination authority amount = .ok result)
    (more : tokens.balance key < result.balance key) : key = destination := by
  by_contra other
  have moved := balance_transfer success key
  rw [if_neg other] at moved
  omega

/-- The account at an address, if there is one, has no delegate. -/
def Undelegated (tokens : Tokens) (key : Pubkey) : Prop :=
  ∀ account, tokens.lookup key = some account → account.delegate = none

/-- A transfer out of an account without a delegate that lacks funds asked for more than there
was. -/
theorem balance_lt_amount {tokens : Tokens} {source destination authority : Pubkey} {amount : Nat}
    (undelegated : tokens.Undelegated source)
    (failed : transfer tokens source destination authority amount =
      .error (.token .insufficientFunds)) : tokens.balance source < amount := by
  have authorized : ∀ sender, tokens.lookup source = some sender →
      sender.authorize authority amount ≠ .error (.token .insufficientFunds) := by
    intro sender sent
    unfold TokenAccount.authorize
    rw [undelegated sender sent, if_neg (Option.some_ne_none _).symm]
    simp
  unfold transfer at failed
  by_cases self : source = destination <;>
    simp [self] at failed <;> grind [balance_of_lookup]

/-- A transfer opens and closes no account and changes neither mint nor owner. -/
theorem kind_transfer {tokens result : Tokens} {source destination authority : Pubkey}
    {amount : Nat} (success : transfer tokens source destination authority amount = .ok result)
    (key : Pubkey) :
    (result.lookup key).map TokenAccount.kind = (tokens.lookup key).map TokenAccount.kind := by
  obtain ⟨sender, receiver, sent, received, -, -, -, left, authorized, ⟨rfl, rfl⟩ |
    ⟨-, -, rfl⟩⟩ := transfer_eq_ok.mp success
  · rfl
  · simp only [Finmap.lookup_insert_eq_ite]
    split
    · rename_i same
      rw [same, received]
      rfl
    · split
      · rename_i same
        rw [same, sent]
        exact congrArg some (TokenAccount.follows_of_authorize authorized).kind
      · rfl

theorem Undelegated.insert_holding {tokens : Tokens} {key : Pubkey}
    (undelegated : tokens.Undelegated key) (other mint owner : Pubkey) (amount : Nat) :
    Undelegated (tokens.insert other (.holding mint owner amount)) key := by
  intro account present
  rcases Finmap.lookup_insert_eq_some present with ⟨-, rfl⟩ | ⟨-, earlier⟩
  · rfl
  · exact undelegated account earlier

theorem Undelegated.transfer {tokens result : Tokens} {source destination authority key : Pubkey}
    {amount : Nat} (undelegated : tokens.Undelegated key)
    (success : transfer tokens source destination authority amount = .ok result) :
    result.Undelegated key := by
  intro account present
  cases before : tokens.lookup key with
  | none =>
      have kinds := kind_transfer success key
      rw [before, present] at kinds
      cases kinds
  | some old =>
      obtain ⟨new, after, follows⟩ := follows_transfer success before
      cases present.symm.trans after
      have none := undelegated old before
      rcases follows.delegate with cleared | same
      · exact cleared
      · rw [same, none]

/-- What a transfer leaves of the accounts, apart from their amounts. -/
theorem form_transfer {tokens result : Tokens} {source destination authority : Pubkey}
    {amount : Nat} (success : transfer tokens source destination authority amount = .ok result)
    (apart : source ≠ destination) (positive : 0 < amount) (key : Pubkey) :
    (result.lookup key).map TokenAccount.form = ((tokens.lookup key).map TokenAccount.form).map
      fun account => account.charged authority (if key = source then amount else 0) := by
  obtain ⟨sender, receiver, sent, received, -, -, -, left, authorized, ⟨same, -⟩ | ⟨-, -, rfl⟩⟩ :=
    transfer_eq_ok.mp success
  · exact absurd same apart
  · by_cases atSource : key = source
    · subst atSource
      rw [Finmap.lookup_insert_of_ne _ apart, Finmap.lookup_insert, sent, if_pos rfl,
        TokenAccount.charged_of_authorize authorized positive]
      exact congrArg some (TokenAccount.form_charged sender authority amount)
    · rw [if_neg atSource]
      simp only [Finmap.lookup_insert_eq_ite, atSource, if_false, TokenAccount.charged_zero,
        Option.map_map]
      split
      · rename_i same
        rw [same, received]
        rfl
      · rfl

/-- Accounts of the same forms and with the same balances are the same. -/
theorem ext_of_balance {first second : Tokens}
    (forms : ∀ key, (first.lookup key).map TokenAccount.form =
      (second.lookup key).map TokenAccount.form)
    (balances : ∀ key, first.balance key = second.balance key) : first = second := by
  apply Finmap.ext_lookup
  intro key
  have form := forms key
  have amount := balances key
  unfold balance at amount
  cases here : first.lookup key with
  | none =>
      rw [here, Option.map_none] at form
      exact (Option.map_eq_none_iff.mp form.symm).symm
  | some account =>
      rw [here, Option.map_some] at form
      obtain ⟨other, there, same⟩ := Option.map_eq_some_iff.mp form.symm
      simp only [here, there] at amount
      rw [there]
      cases account
      cases other
      simp_all [TokenAccount.form]

/-- An account is still there when its kind is. -/
theorem exists_of_kind {before after : Option TokenAccount} {account : TokenAccount}
    (kinds : after.map TokenAccount.kind = before.map TokenAccount.kind)
    (present : before = some account) :
    ∃ other, after = some other ∧ other.kind = account.kind := by
  rw [present, Option.map_some] at kinds
  exact Option.map_eq_some_iff.mp kinds

/-- What keeps the kinds of all vaults keeps them owning themselves. -/
theorem owned_of_kinds {isVault : Pubkey → Bool} {before after : Tokens}
    (owned : ∀ key account, isVault key = true → before.lookup key = some account →
      account.owner = key)
    (kinds : ∀ key, isVault key = true →
      (after.lookup key).map TokenAccount.kind = (before.lookup key).map TokenAccount.kind) :
    ∀ key account, isVault key = true → after.lookup key = some account → account.owner = key := by
  intro key account vault present
  obtain ⟨old, found, kind⟩ := exists_of_kind (kinds key vault).symm present
  rw [← owned key old vault found]
  exact (Prod.mk.inj kind).2.symm

theorem supply_transfer {tokens result : Tokens} {source destination authority : Pubkey}
    {amount : Nat} (success : transfer tokens source destination authority amount = .ok result)
    (mint : Pubkey) : result.supply mint = tokens.supply mint := by
  obtain ⟨sender, receiver, sent, received, -, funded, sameMint, left, authorized, ⟨rfl, rfl⟩ |
    ⟨apart, -, rfl⟩⟩ := transfer_eq_ok.mp success
  · rfl
  · have own : left.mint = sender.mint :=
      (Prod.mk.inj (TokenAccount.follows_of_authorize authorized).kind).1
    have taken := Finmap.total_insert
      (fun _ (account : TokenAccount) => if account.mint = mint then account.amount else 0)
      tokens source sender { left with amount := sender.amount - amount } sent
    have kept : (tokens.insert source { left with amount := sender.amount - amount }).lookup
        destination = some receiver := by
      rw [Finmap.lookup_insert_of_ne _ (Ne.symm apart), received]
    have added := Finmap.total_insert
      (fun _ (account : TokenAccount) => if account.mint = mint then account.amount else 0)
      _ destination receiver { receiver with amount := receiver.amount + amount } kept
    simp only [supply]
    dsimp only at taken added
    by_cases same : receiver.mint = mint
    · have sold := sameMint.trans same
      rw [if_pos sold, if_pos (own.trans sold)] at taken
      rw [if_pos same, if_pos same] at added
      omega
    · have other : ¬ sender.mint = mint := fun sold => same (sameMint.symm.trans sold)
      rw [if_neg other, if_neg fun sold => other (own.symm.trans sold)] at taken
      rw [if_neg same, if_neg same] at added
      omega

theorem amount_le_supply {tokens : Tokens} {key : Pubkey} {account : TokenAccount}
    (present : tokens.lookup key = some account) :
    account.amount ≤ tokens.supply account.mint := by
  have covered := Finmap.le_total
    (fun _ (other : TokenAccount) => if other.mint = account.mint then other.amount else 0)
    tokens key account present (fun _ _ _ => Nat.zero_le _)
  simpa [supply] using covered

/-- Two accounts of one mint together hold at most its supply. -/
theorem amounts_le_supply {tokens : Tokens} {first second : Pubkey}
    {left right : TokenAccount} (apart : first ≠ second)
    (atFirst : tokens.lookup first = some left) (atSecond : tokens.lookup second = some right)
    (sameMint : left.mint = right.mint) :
    left.amount + right.amount ≤ tokens.supply left.mint := by
  have split := Finmap.total_erase
    (fun _ (other : TokenAccount) => if other.mint = left.mint then other.amount else 0)
    tokens first left atFirst
  have rest : (tokens.erase first).lookup second = some right := by
    rw [Finmap.lookup_erase_ne (Ne.symm apart), atSecond]
  have covered := Finmap.le_total
    (fun _ (other : TokenAccount) => if other.mint = left.mint then other.amount else 0)
    (tokens.erase first) second right rest (fun _ _ _ => Nat.zero_le _)
  simp only [← sameMint, if_true] at split covered
  simp only [supply, split]
  omega

/-- A funded transfer between two accounts of a mint whose supply fits never fails, when the
sender has no delegate and neither account is frozen. -/
theorem transfer_of_funded {tokens : Tokens} {source destination : Pubkey} {amount : Nat}
    {sender receiver : TokenAccount} (sent : tokens.lookup source = some sender)
    (received : tokens.lookup destination = some receiver) (apart : source ≠ destination)
    (undelegated : sender.delegate = none)
    (thawed : sender.frozen = false ∧ receiver.frozen = false)
    (funded : amount ≤ sender.amount) (sameMint : sender.mint = receiver.mint)
    (fits : tokens.supply sender.mint < 2 ^ 64) :
    ∃ result, transfer tokens source destination sender.owner amount = .ok result := by
  have both := amounts_le_supply apart sent received sameMint
  exact ⟨_, transfer_eq_ok.mpr ⟨sender, receiver, sent, received, thawed, funded, sameMint, sender,
    TokenAccount.authorize_of_undelegated undelegated, Or.inr ⟨apart, by omega, rfl⟩⟩⟩

/-- An associated token account holds the mint it is derived for. -/
def Addressed (key : Pubkey) (account : TokenAccount) : Prop :=
  match key with
  | .associatedToken _ mint => account.mint = mint
  | _ => True

instance (key : Pubkey) (account : TokenAccount) : Decidable (Addressed key account) := by
  unfold Addressed
  split <;> infer_instance

/-- What the token program lets an account at an address be. The mint of the token has no freeze
authority, so its accounts are never frozen. Nobody but its program signs for a derived address,
and no program approves a delegate, so an account that is its own owner there has none. -/
structure Regular (key : Pubkey) (account : TokenAccount) : Prop where
  addressed : Addressed key account
  thawed : account.mint = id.nosToken → account.frozen = false
  undelegated : key.derived = true → account.owner = key → account.delegate = none

instance (key : Pubkey) (account : TokenAccount) : Decidable (Regular key account) :=
  decidable_of_iff (Addressed key account ∧ (account.mint = id.nosToken → account.frozen = false) ∧
      (key.derived = true → account.owner = key → account.delegate = none))
    ⟨fun ⟨addressed, thawed, undelegated⟩ => ⟨addressed, thawed, undelegated⟩,
      fun regular => ⟨regular.addressed, regular.thawed, regular.undelegated⟩⟩

theorem regular_holding {key mint owner : Pubkey} {amount : Nat}
    (addressed : Addressed key (.holding mint owner amount)) :
    Regular key (.holding mint owner amount) := ⟨addressed, fun _ => rfl, fun _ _ => rfl⟩

theorem Regular.follows {key : Pubkey} {before after : TokenAccount} (regular : Regular key before)
    (follows : before.Follows after) : Regular key after := by
  obtain ⟨addressed, thawed, undelegated⟩ := regular
  obtain ⟨mint, owner⟩ := Prod.mk.inj follows.kind
  refine ⟨?_, fun own => ?_, fun derived own => ?_⟩
  · unfold Addressed at addressed ⊢
    split <;> simp_all
  · rw [follows.frozen]
    exact thawed (mint.symm.trans own)
  · rcases follows.delegate with none | same
    · exact none
    · rw [same]
      exact undelegated derived (owner.symm.trans own)

/-- The ledgers the token program maintains: the supply of the token is capped,
and every account is one the program lets be. -/
structure WellFormed (cap : Nat) (tokens : Tokens) : Prop where
  capped : tokens.supply id.nosToken ≤ cap
  regular : ∀ key account, tokens.lookup key = some account → Regular key account

instance (cap : Nat) (tokens : Tokens) : Decidable (WellFormed cap tokens) :=
  decidable_of_iff (tokens.supply id.nosToken ≤ cap ∧ ∀ key ∈ tokens.keys,
      (tokens.lookup key).all (fun account => decide (Regular key account)) = true) (by
    constructor
    · rintro ⟨capped, all⟩
      refine ⟨capped, fun key account present => ?_⟩
      have holds := all key (Finmap.mem_keys.mpr (Finmap.mem_of_lookup_eq_some present))
      simpa [present] using holds
    · rintro ⟨capped, regular⟩
      refine ⟨capped, fun key _ => ?_⟩
      cases present : tokens.lookup key with
      | none => rfl
      | some account => simpa using regular key account present)

theorem WellFormed.mono {cap larger : Nat} {tokens : Tokens} (wellFormed : WellFormed cap tokens)
    (more : cap ≤ larger) : WellFormed larger tokens :=
  ⟨wellFormed.capped.trans more, wellFormed.regular⟩

theorem WellFormed.undelegated {cap : Nat} {tokens : Tokens} (wellFormed : WellFormed cap tokens)
    {vault mint : Pubkey} (derived : vault.derived = true)
    (kind : (tokens.lookup vault).map TokenAccount.kind = some (mint, vault)) :
    tokens.Undelegated vault := by
  intro account present
  rw [present] at kind
  exact (wellFormed.regular vault account present).undelegated derived
    (Prod.mk.inj (Option.some.inj kind)).2

/-- A vault pays what it holds to any other account of the token. -/
theorem WellFormed.pays {cap : Nat} {tokens : Tokens} {vault destination : Pubkey} {amount : Nat}
    {receiver : TokenAccount} (wellFormed : WellFormed cap tokens) (fits : cap < 2 ^ 64)
    (derived : vault.derived = true)
    (kind : (tokens.lookup vault).map TokenAccount.kind = some (id.nosToken, vault))
    (received : tokens.lookup destination = some receiver) (sort : receiver.mint = id.nosToken)
    (apart : vault ≠ destination) (funded : amount ≤ tokens.balance vault) :
    ∃ result, Tokens.transfer tokens vault destination vault amount = .ok result := by
  obtain ⟨sender, sent, same⟩ := Option.map_eq_some_iff.mp kind
  obtain ⟨mint, owner⟩ := Prod.mk.inj same
  have own := wellFormed.regular vault sender sent
  have other := wellFormed.regular destination receiver received
  have limit : tokens.supply sender.mint < 2 ^ 64 := by
    rw [mint]
    exact lt_of_le_of_lt wellFormed.capped fits
  rw [balance_of_lookup sent] at funded
  obtain ⟨result, moved⟩ := transfer_of_funded sent received apart
    (wellFormed.undelegated derived kind sender sent) ⟨own.thawed mint, other.thawed sort⟩ funded
    (mint.trans sort.symm) limit
  rw [owner] at moved
  exact ⟨result, moved⟩

theorem WellFormed.transfer {cap : Nat} {tokens result : Tokens}
    {source destination authority : Pubkey} {amount : Nat} (wellFormed : WellFormed cap tokens)
    (success : transfer tokens source destination authority amount = .ok result) :
    WellFormed cap result := by
  refine ⟨by rw [supply_transfer success]; exact wellFormed.capped, fun key account present => ?_⟩
  obtain ⟨old, before, -⟩ := exists_of_kind (kind_transfer success key).symm present
  obtain ⟨new, after, follows⟩ := follows_transfer success before
  cases present.symm.trans after
  exact (wellFormed.regular key old before).follows follows

theorem WellFormed.insert_empty {cap : Nat} {tokens : Tokens} {key mint owner : Pubkey}
    (wellFormed : WellFormed cap tokens) (fresh : key ∉ tokens)
    (addressed : Addressed key (.holding mint owner 0)) :
    WellFormed cap (tokens.insert key (.holding mint owner 0)) := by
  refine ⟨?_, fun other account inside => ?_⟩
  · rw [supply, Finmap.total_insert_fresh _ _ _ _ fresh]
    simpa [supply] using wellFormed.capped
  · rcases Finmap.lookup_insert_eq_some inside with ⟨rfl, rfl⟩ | ⟨-, earlier⟩
    · exact regular_holding addressed
    · exact wellFormed.regular other account earlier

theorem WellFormed.erase {cap : Nat} {tokens : Tokens} {key : Pubkey} {account : TokenAccount}
    (wellFormed : WellFormed cap tokens) (present : tokens.lookup key = some account) :
    WellFormed cap (tokens.erase key) := by
  refine ⟨?_, fun other found inside => ?_⟩
  · have split := Finmap.total_erase
      (fun _ (other : TokenAccount) => if other.mint = id.nosToken then other.amount else 0)
      tokens key account present
    have capped := wellFormed.capped
    simp only [supply] at capped ⊢
    omega
  · exact wellFormed.regular other found (Finmap.lookup_erase_eq_some inside).2

/-- The supply of every mint fits in `u64`. -/
def Minted (tokens : Tokens) : Prop :=
  ∀ key account, tokens.lookup key = some account → tokens.supply account.mint < 2 ^ 64

instance (tokens : Tokens) : Decidable tokens.Minted :=
  decidable_of_iff (∀ key ∈ tokens.keys, (tokens.lookup key).all
      (fun account => decide (tokens.supply account.mint < 2 ^ 64)) = true) (by
    constructor
    · intro all key account present
      have holds := all key (Finmap.mem_keys.mpr (Finmap.mem_of_lookup_eq_some present))
      simpa [present] using holds
    · intro minted key _
      cases present : tokens.lookup key with
      | none => rfl
      | some account => simpa using minted key account present)

theorem Minted.transfer {tokens result : Tokens} {source destination authority : Pubkey}
    {amount : Nat} (minted : tokens.Minted)
    (success : Tokens.transfer tokens source destination authority amount = .ok result) :
    result.Minted := by
  intro key account present
  obtain ⟨old, found, kind⟩ := exists_of_kind (kind_transfer success key).symm present
  rw [supply_transfer success, ← (Prod.mk.inj kind).1]
  exact minted key old found

/-- An account that is opened empty adds nothing to a supply. -/
theorem supply_insert_empty {tokens : Tokens} {key : Pubkey} (fresh : key ∉ tokens)
    (mint owner other : Pubkey) :
    supply (tokens.insert key (.holding mint owner 0)) other = tokens.supply other := by
  unfold supply
  rw [Finmap.total_insert_fresh _ _ _ _ fresh]
  simp

theorem Minted.insert_empty {tokens : Tokens} {key other mint owner : Pubkey}
    {account : TokenAccount} (minted : tokens.Minted) (fresh : key ∉ tokens)
    (present : tokens.lookup other = some account) (same : account.mint = mint) :
    Minted (tokens.insert key (.holding mint owner 0)) := by
  intro third found inside
  rw [supply_insert_empty fresh]
  rcases Finmap.lookup_insert_eq_some inside with ⟨-, rfl⟩ | ⟨-, earlier⟩
  · show tokens.supply mint < 2 ^ 64
    rw [← same]
    exact minted other account present
  · exact minted third found earlier

theorem supply_erase_le (tokens : Tokens) (key mint : Pubkey) :
    supply (tokens.erase key) mint ≤ tokens.supply mint := by
  cases present : tokens.lookup key with
  | none =>
      have same : tokens.erase key = tokens := by
        apply Finmap.ext_lookup
        intro other
        rw [Finmap.lookup_erase_eq_ite]
        split
        · rename_i erased
          rw [erased, present]
        · rfl
      rw [same]
  | some account =>
      have split := Finmap.total_erase
        (fun _ (other : TokenAccount) => if other.mint = mint then other.amount else 0) tokens key
        account present
      unfold supply
      omega

theorem Minted.erase {tokens : Tokens} (minted : tokens.Minted) (key : Pubkey) :
    Minted (tokens.erase key) := by
  intro other account inside
  exact lt_of_le_of_lt (supply_erase_le tokens key account.mint)
    (minted other account (Finmap.lookup_erase_eq_some inside).2)

/-- Any number of transfers, one after the other. -/
inductive Moved (tokens : Tokens) : Tokens → Prop
  | rest : Moved tokens tokens
  | transfer {middle result : Tokens} {source destination authority : Pubkey} {amount : Nat}
      (earlier : Moved tokens middle)
      (success : middle.transfer source destination authority amount = .ok result) :
      Moved tokens result

theorem Moved.kind_eq {tokens result : Tokens} (moved : Moved tokens result) (key : Pubkey) :
    (result.lookup key).map TokenAccount.kind = (tokens.lookup key).map TokenAccount.kind := by
  induction moved with
  | rest => rfl
  | transfer _ success ih => rw [kind_transfer success, ih]

theorem Moved.wellFormed {cap : Nat} {tokens result : Tokens} (moved : Moved tokens result)
    (wellFormed : WellFormed cap tokens) : WellFormed cap result := by
  induction moved with
  | rest => exact wellFormed
  | transfer _ success ih => exact ih.transfer success

/-- What others can do to the account at a vault's address: put tokens into it. -/
def Grows (before after : Option TokenAccount) : Prop :=
  match before, after with
  | some old, some new => new.kind = old.kind ∧ old.amount ≤ new.amount
  | none, none => True
  | _, _ => False

instance (before after : Option TokenAccount) : Decidable (Grows before after) := by
  unfold Grows
  split <;> infer_instance

theorem grows_rfl (account : Option TokenAccount) : Grows account account := by
  cases account with
  | none => trivial
  | some account => exact ⟨rfl, le_refl _⟩

/-- Only the source of a transfer does not grow. -/
theorem grows_transfer {tokens result : Tokens} {source destination authority key : Pubkey}
    {amount : Nat} (success : transfer tokens source destination authority amount = .ok result)
    (other : key ≠ source) : Grows (tokens.lookup key) (result.lookup key) := by
  have kinds := kind_transfer success key
  have more := balance_le_of_ne_source success other
  unfold balance at more
  unfold Grows
  cases before : tokens.lookup key <;> cases after : result.lookup key <;> simp_all

theorem Grows.trans {first second third : Option TokenAccount} (before : Grows first second)
    (after : Grows second third) : Grows first third := by
  unfold Grows at *
  cases first <;> cases second <;> cases third <;> simp_all
  omega

/-- Anything the token program does for others: whatever happens to their accounts,
it opens and closes no vault and takes nothing out of one. -/
structure External (isVault : Pubkey → Bool) (cap : Nat) (before after : Tokens) : Prop where
  wellFormed : WellFormed cap after
  vaults : ∀ key, isVault key = true → Grows (before.lookup key) (after.lookup key)

instance (isVault : Pubkey → Bool) (cap : Nat) (before after : Tokens) :
    Decidable (External isVault cap before after) :=
  decidable_of_iff (WellFormed cap after ∧ ∀ key ∈ before.keys ∪ after.keys,
      isVault key = true → Grows (before.lookup key) (after.lookup key)) (by
    constructor
    · rintro ⟨wellFormed, vaults⟩
      refine ⟨wellFormed, fun key vault => ?_⟩
      by_cases known : key ∈ before.keys ∪ after.keys
      · exact vaults key known vault
      · simp only [Finset.mem_union, Finmap.mem_keys, not_or] at known
        rw [Finmap.lookup_eq_none.mpr known.1, Finmap.lookup_eq_none.mpr known.2]
        trivial
    · rintro ⟨wellFormed, vaults⟩
      exact ⟨wellFormed, fun key _ vault => vaults key vault⟩)

theorem External.balance_le {isVault : Pubkey → Bool} {cap : Nat} {before after : Tokens}
    (external : External isVault cap before after) {key : Pubkey} (vault : isVault key = true) :
    before.balance key ≤ after.balance key := by
  have grows := external.vaults key vault
  unfold Grows at grows
  unfold balance
  split at grows <;> simp_all

theorem External.kind_eq {isVault : Pubkey → Bool} {cap : Nat} {before after : Tokens}
    (external : External isVault cap before after) {key : Pubkey} (vault : isVault key = true) :
    (after.lookup key).map TokenAccount.kind = (before.lookup key).map TokenAccount.kind := by
  have grows := external.vaults key vault
  unfold Grows at grows
  split at grows <;> simp_all

end Tokens

end Nosana
