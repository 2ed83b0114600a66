import Nosana.JobsLines
import Nosana.WriterCalls

set_option autoImplicit false

/- Listing a job while nodes wait, and assigning it to the node that has waited longest. The run
account is written by hand in the one case and by the account framework in the other. -/

/-! Integers as bytes, the lowest byte first -/

namespace LittleEndian

/-- `to_le_bytes` of an unsigned integer of the given number of bytes. -/
def toBytes : Nat → Nat → List UInt8
  | 0, _ => []
  | count + 1, value => UInt8.ofNat value :: toBytes count (value / 256)

@[simp] theorem length_toBytes (count value : Nat) : (toBytes count value).length = count := by
  induction count generalizing value with
  | zero => rfl
  | succ count ih => simp only [toBytes, List.length_cons, ih]

/-- `from_le_bytes` -/
def ofBytes : List UInt8 → Nat
  | [] => 0
  | byte :: bytes => byte.toNat + 256 * ofBytes bytes

/-- The bytes of an `i64`, in two's complement. -/
def i64ToBytes (value : Int) : List UInt8 := toBytes 8 (value % 2 ^ 64).toNat

def i64OfBytes (bytes : List UInt8) : Int :=
  let value := ofBytes bytes
  if value < 2 ^ 63 then value else value - 2 ^ 64

end LittleEndian

namespace Nosana.Jobs

open Checked

/-- Code outside the repository: the discriminator of run accounts and the bytes of a key. -/
structure Codec where
  discriminator : Vector UInt8 8
  toBytes : Pubkey → Vector UInt8 32
  ofBytes : List UInt8 → Pubkey

def readExact (count : Nat) (data : List UInt8) : Except Error (List UInt8 × List UInt8) :=
  if count ≤ data.length then .ok (data.take count, data.drop count)
  else .error (.anchor .accountDidNotDeserialize)

namespace RunAccount

/-- The discriminator and the size of the record, 105 bytes aligned to 112. -/
def size : Nat := 8 + 112

/-- The buffers that `try_serialize` writes one after the other. -/
def chunks (codec : Codec) (self : RunAccount) : List (List UInt8) :=
  [codec.discriminator.toList, (codec.toBytes self.job).toList, (codec.toBytes self.node).toList,
    (codec.toBytes self.payer).toList, [self.state], LittleEndian.i64ToBytes self.time]

def trySerialize (codec : Codec) (self : RunAccount) (writer : BpfWriter) :
    Except Error BpfWriter :=
  match (self.chunks codec).foldlM BpfWriter.writeAll writer with
  | .ok written => .ok written
  | .error _ => .error (.anchor .accountDidNotSerialize)

/-- The discriminator is passed over; data without one panics. -/
def tryDeserializeUnchecked (codec : Codec) (data : List UInt8) : Except Error RunAccount := do
  require (8 ≤ data.length) (.panic .indexOutOfBounds)
  let (job, data) ← readExact 32 (data.drop 8)
  let (node, data) ← readExact 32 data
  let (payer, data) ← readExact 32 data
  let (state, data) ← readExact 1 data
  let (time, _) ← readExact 8 data
  return ⟨codec.ofBytes job, codec.ofBytes node, codec.ofBytes payer, state.headD 0,
    LittleEndian.i64OfBytes time⟩

/-- The data that `RunAccount::initialize` leaves in the account it creates. -/
def initializeData (codec : Codec) (clock : Int) (payer job node : Pubkey) :
    Except Error (List UInt8) := do
  let data := List.replicate size 0
  let run ← tryDeserializeUnchecked codec data
  -- serialize back
  let writer ← (run.create job node payer clock).trySerialize codec (.new data)
  return writer.inner

def serialized (codec : Codec) (self : RunAccount) : List UInt8 := (self.chunks codec).flatten

theorem length_serialized (codec : Codec) (self : RunAccount) :
    (self.serialized codec).length = 113 := by
  simp [serialized, chunks, LittleEndian.i64ToBytes]

/-- The data of an account that holds the run: what is behind the record stays zero. -/
def data (codec : Codec) (self : RunAccount) : List UInt8 :=
  self.serialized codec ++ List.replicate (size - 113) 0

theorem tryDeserializeUnchecked_zeroed (codec : Codec) :
    ∃ blank, tryDeserializeUnchecked codec (List.replicate size 0) = .ok blank ∧
      blank.state = 0 :=
  ⟨_, rfl, rfl⟩

/-- Serializing over the data of a new account gives the data of the run. -/
theorem trySerialize_zeroed (codec : Codec) (self : RunAccount) :
    ∃ written, self.trySerialize codec (.new (List.replicate size 0)) = .ok written ∧
      written.inner = self.data codec := by
  have room : (self.chunks codec).flatten.length ≤ (List.replicate size (0 : UInt8)).length := by
    have := self.length_serialized codec
    rw [serialized] at this
    rw [this, List.length_replicate]
    decide
  obtain ⟨written, success, holds⟩ := (BpfWriter.holds_new _).foldlM_writeAll room
  refine ⟨written, ?_, ?_⟩
  · simp only [trySerialize, success]
  · have := self.length_serialized codec
    rw [serialized] at this
    rw [holds.inner, this, List.drop_replicate]
    rfl

/-- The hand-written creation of a run account does not fail. -/
theorem initializeData_eq_ok (codec : Codec) (clock : Int) (payer job node : Pubkey) :
    initializeData codec clock payer job node =
      .ok ((zeroed.create job node payer clock).data codec) := by
  obtain ⟨blank, loaded, state⟩ := tryDeserializeUnchecked_zeroed codec
  have created : blank.create job node payer clock = zeroed.create job node payer clock := by
    simp only [create, zeroed, state]
  obtain ⟨written, success, inner⟩ := trySerialize_zeroed codec (zeroed.create job node payer clock)
  simp only [initializeData, bind_eq_ok, pure_eq_ok]
  exact ⟨blank, loaded, written, created ▸ success, inner⟩

end RunAccount

section

open BpfWriter

/-- Whatever is written, the start of the buffer is what has been reported as written, and the rest
is as it was. Everything is written exactly when it fits, and no copy leaves its slices. A new run
account has the discriminator and the bytes of the run at its start. -/
theorem writer_writes_prefix (buffer : List UInt8) (calls : List Call) (codec : Codec)
    (clock : Int) (payer job node : Pubkey) :
    ((BpfWriter.run (new buffer) calls).pos ≤ buffer.length ∧
      (BpfWriter.run (new buffer) calls).inner.length = buffer.length ∧
      (BpfWriter.run (new buffer) calls).inner.take (BpfWriter.run (new buffer) calls).pos =
        (BpfWriter.trace (new buffer) calls).flatMap reported ∧
      (BpfWriter.run (new buffer) calls).inner.drop (BpfWriter.run (new buffer) calls).pos =
        buffer.drop (BpfWriter.run (new buffer) calls).pos) ∧
    (∀ event ∈ BpfWriter.trace (new buffer) calls,
      (∀ buf, event.action = .writeAll buf →
        ((event.before.perform event.action).1 = .result (.ok ()) ↔
          buf.length ≤ event.before.remaining)) ∧
      Copies event) ∧
    RunAccount.initializeData codec clock payer job node =
      .ok ((RunAccount.zeroed.create job node payer clock).serialized codec ++
        List.replicate (RunAccount.size - 113) 0) := by
  refine ⟨?_, fun event member => ?_, RunAccount.initializeData_eq_ok codec clock payer job node⟩
  · have ⟨holds, within⟩ := progress_run buffer calls
    rw [holds.inner, holds.pos, List.take_left, List.drop_left, List.length_append,
      List.length_drop]
    exact ⟨within, by omega, rfl, rfl⟩
  · obtain ⟨past, progress⟩ := progress_trace buffer calls event member
    have same : event.after = (event.before.perform event.action).2 :=
      (Except.ok.inj (Machine.mem_trace_step member)).symm
    refine ⟨fun buf all => ?_, ?_⟩
    · rw [all]
      exact progress.holds.writeAll_ok_iff buf
    · have copies := progress.holds.copies event.action
      rw [← same] at copies
      exact copies

end

/-- How the account framework treats an account that an instruction creates: it reads the data
before the handler runs, and writes the account back after it. -/
structure Framework where
  load : List UInt8 → Except Error RunAccount
  exit : RunAccount → List UInt8 → Except Error (List UInt8)

/-- A new account is read without a look at its discriminator, and an account that fits is
written at the start of its data. -/
structure Framework.Documented (framework : Framework) (codec : Codec) : Prop where
  load : ∀ data, framework.load data = RunAccount.tryDeserializeUnchecked codec data
  exit : ∀ run data, (run.serialized codec).length ≤ data.length →
    framework.exit run data =
      .ok (run.serialized codec ++ data.drop (run.serialized codec).length)

/-- The data of the run account that `assign` leaves. -/
def assignData (framework : Framework) (clock : Int) (payer job node : Pubkey) :
    Except Error (List UInt8) := do
  let data := List.replicate RunAccount.size 0
  let run ← framework.load data
  framework.exit (run.create job node payer clock) data

theorem assignData_eq_ok {framework : Framework} {codec : Codec}
    (documented : framework.Documented codec) (clock : Int) (payer job node : Pubkey) :
    assignData framework clock payer job node =
      .ok ((RunAccount.zeroed.create job node payer clock).data codec) := by
  obtain ⟨blank, loaded, state⟩ := RunAccount.tryDeserializeUnchecked_zeroed codec
  have created : blank.create job node payer clock =
      RunAccount.zeroed.create job node payer clock := by
    simp only [RunAccount.create, RunAccount.zeroed, state]
  have length := RunAccount.length_serialized codec (RunAccount.zeroed.create job node payer clock)
  simp only [assignData, bind_eq_ok, documented.load]
  refine ⟨blank, loaded, ?_⟩
  rw [created, documented.exit _ _ (by rw [length]; decide), length, List.drop_replicate]
  rfl

/-- The accounts of `assign` that are those of `list`, and the node. -/
def Accounts.List.toAssign (a : Accounts.List) (node : Pubkey) : Accounts.Assign :=
  ⟨a.job, a.market, a.run, node, a.user, a.vault, a.payer, a.rewardsVault, a.authority, a.access⟩

variable [Runtime]

theorem assignConstraints_iff_list {s : State} {a : Accounts.List} (node : Pubkey)
    (unfunded : a.runLamports = 0) {market : MarketAccount} :
    assignConstraints s (a.toAssign node) = .ok market ↔
      listConstraints s a = .ok market ∧ market.queueType = QueueType.node.toU8 := by
  simp only [assignConstraints, listConstraints, Tokens.load, bind_eq_ok, require_eq_ok,
    loadMarket_eq_ok, get_eq_ok, pure_eq_ok, exists_const, exists_loaded]
  constructor
  · rintro ⟨vacant, _, present, vaulted, waiting, run, user, associated, vault, rewards, apart,
      ⟨⟩, access, rfl⟩
    exact ⟨⟨vacant, _, present, vaulted, unfunded, run, user, associated, vault, rewards, apart,
      ⟨⟩, access, rfl⟩, waiting⟩
  · rintro ⟨⟨vacant, _, present, vaulted, -, run, user, associated, vault, rewards, apart, ⟨⟩,
      access, rfl⟩, waiting⟩
    exact ⟨vacant, _, present, vaulted, waiting, run, user, associated, vault, rewards, apart,
      ⟨⟩, access, rfl⟩

/-- The job that is listed. -/
def Accounts.List.created (a : Accounts.List) (market : MarketAccount) (ipfsJob : IpfsHash)
    (timeout : Int) : JobAccount :=
  JobAccount.zeroed.create ipfsJob a.market a.payer market.jobPrice a.authority timeout

/-- The state after a node was taken out of the queue of a market for a job. -/
def State.started (s : State) (a : Accounts.List) (market : MarketAccount) (node : Pubkey)
    (job : JobAccount) (tokens : Tokens) : State :=
  { s with
    markets := s.markets.insert a.market (market.withLine (market.line.remove node))
    jobs := s.jobs.insert a.job job
    runs := s.runs.insert a.run (RunAccount.zeroed.create a.job node a.payer s.clock)
    tokens := tokens }

section

variable {s s' : State} {a : Accounts.List} {market : MarketAccount} {node : Pubkey}

omit [Runtime] in
/-- An address other than that of a new job stays vacant. -/
theorem State.Vacant.insertJob {key other : Pubkey} {job : JobAccount} (vacant : s.Vacant other)
    (apart : other ≠ key) : State.Vacant { s with jobs := s.jobs.insert key job } other := by
  obtain ⟨noMarket, noSettings, noJob, noRun, noTokens⟩ := vacant
  exact ⟨noMarket, noSettings, by simp [apart, noJob], noRun, noTokens⟩

theorem listConstraints_market (constraints : listConstraints s a = .ok market) :
    s.markets.lookup a.market = some market ∧ s.Vacant a.run ∧ a.run ≠ a.job := by
  simp only [listConstraints, bind_eq_ok, require_eq_ok, loadMarket_eq_ok, pure_eq_ok,
    exists_const] at constraints
  obtain ⟨-, _, present, -, -, ⟨vacant, apart⟩, -, -, -, -, -, -, -, -, -, -, rfl⟩ :=
    constraints
  exact ⟨present, vacant, apart⟩

/-- Listing a job takes the head of a queue of nodes. -/
theorem list_waiting_iff (filed : Filed market) (opened : s.markets.lookup a.market = some market)
    (waiting : market.queueType = QueueType.node.toU8) (head : market.queue.head? = some node)
    (ipfsJob : IpfsHash) (timeout : Int) :
    list s a ipfsJob timeout = .ok s' ↔ listConstraints s a = .ok market ∧
      ∃ tokens, payDeposit s.tokens (a.created market ipfsJob timeout) timeout a.user a.vault
        a.rewardsVault a.payer = .ok tokens ∧
      s.started a market node (a.created market ipfsJob timeout) tokens = s' := by
  obtain ⟨rest, first⟩ := List.head?_eq_some_iff.mp head
  have side := (QueueType.ofU8_eq_node _).mpr waiting
  have fits := (filed.remove node).fits
  simp only [list, bind_eq_ok, pure_eq_ok, Prod.exists]
  constructor
  · rintro ⟨found, constraints, written, queued, placed, tokens, paid, _, exited, rfl⟩
    cases opened.symm.trans (listConstraints_market constraints).1
    obtain ⟨-, rfl⟩ := MarketAccount.exit_eq_ok.mp exited
    simp only [side, bind_eq_ok, Prod.exists, MarketAccount.popFromQueue_eq_ok,
      initializeRun_eq_ok, pure_eq_ok, Prod.mk.injEq] at placed
    obtain ⟨_, _, ⟨_, popped, rfl⟩, _, ⟨-, rfl⟩, rfl, rfl⟩ := placed
    cases first.symm.trans popped
    exact ⟨constraints, tokens, paid, rfl⟩
  · rintro ⟨constraints, tokens, paid, rfl⟩
    obtain ⟨_, vacant, apart⟩ := listConstraints_market constraints
    refine ⟨market, constraints, _,
      { s.started a market node (a.created market ipfsJob timeout) s.tokens with
        markets := s.markets },
      ?_, tokens, paid, _, MarketAccount.exit_eq_ok.mpr ⟨fits, rfl⟩, rfl⟩
    simp only [side, bind_eq_ok, Prod.exists, MarketAccount.popFromQueue_eq_ok,
      initializeRun_eq_ok, pure_eq_ok, Prod.mk.injEq]
    exact ⟨node, _, ⟨rest, first, rfl⟩, _, ⟨vacant.insertJob apart, rfl⟩, rfl, rfl⟩

/-- Assigning a job takes the chosen node out of the queue. -/
theorem assign_waiting_iff (unfunded : a.runLamports = 0)
    (opened : s.markets.lookup a.market = some market)
    (waiting : market.queueType = QueueType.node.toU8) (queued : node ∈ market.queue)
    (ipfsJob : IpfsHash) (timeout : Int) :
    assign s (a.toAssign node) ipfsJob timeout = .ok s' ↔ listConstraints s a = .ok market ∧
      ∃ tokens, payDeposit s.tokens (a.created market ipfsJob timeout) timeout a.user a.vault
        a.rewardsVault a.payer = .ok tokens ∧
      s.started a market node (a.created market ipfsJob timeout) tokens = s' := by
  simp only [assign, bind_eq_ok, pure_eq_ok, MarketAccount.removeFromQueue_eq_ok,
    assignConstraints_iff_list node unfunded]
  constructor
  · rintro ⟨found, ⟨constraints, -⟩, _, ⟨-, rfl⟩, tokens, paid, rfl⟩
    cases opened.symm.trans (listConstraints_market constraints).1
    exact ⟨constraints, tokens, paid, rfl⟩
  · rintro ⟨constraints, tokens, paid, rfl⟩
    exact ⟨market, ⟨constraints, waiting⟩, _, ⟨queued, rfl⟩, tokens, paid, rfl⟩

end

/-- Whatever happened before: while nodes wait in a market, listing a job there and assigning it
to the node at the head of the queue succeed together, end in the same state, and leave the same
data in the run account. -/
theorem assign_to_head_iff_list {s : State} (genesis : Genesis s) (actions : List Action)
    {framework : Framework} {codec : Codec} (documented : framework.Documented codec)
    {a : Accounts.List} (unfunded : a.runLamports = 0) {market : MarketAccount}
    (opened : (run s actions).markets.lookup a.market = some market)
    (waiting : market.queueType = QueueType.node.toU8) {node : Pubkey}
    (head : market.queue.head? = some node) (ipfsJob : IpfsHash) (timeout : Int) :
    (∀ s', list (run s actions) a ipfsJob timeout = .ok s' ↔
      assign (run s actions) (a.toAssign node) ipfsJob timeout = .ok s') ∧
    ∃ data,
      RunAccount.initializeData codec (run s actions).clock a.payer a.job node = .ok data ∧
      assignData framework (run s actions).clock a.payer a.job node = .ok data ∧
      ∀ s', list (run s actions) a ipfsJob timeout = .ok s' →
        ∃ started ∈ s'.runs.lookup a.run, started.node = node ∧ data = started.data codec := by
  have filed := run_filed genesis actions _ _ opened
  have queued : node ∈ market.queue := List.mem_of_head? head
  have listed {s'} := @list_waiting_iff _ _ s' a _ _ filed opened waiting head ipfsJob timeout
  refine ⟨?_, _, RunAccount.initializeData_eq_ok codec _ _ _ _,
    assignData_eq_ok documented _ _ _ _, ?_⟩
  · intro s'
    rw [listed, assign_waiting_iff unfunded opened waiting queued ipfsJob timeout]
  · intro s' success
    obtain ⟨-, tokens, -, rfl⟩ := listed.mp success
    exact ⟨_, Finmap.lookup_insert _, rfl, rfl⟩

namespace Sample

/-- A node waits in the market. -/
def waitingNode : List Action := [openMarket 2 0, work firstRun node]

def listingForNode : Accounts.List :=
  ⟨job, market, firstRun, 0, wallet project, vault, project, rewardsVault, project,
    ⟨none, none, none⟩⟩

def codec : Codec where
  discriminator := #v[194, 169, 110, 230, 235, 11, 225, 22]
  toBytes
    | .address bytes => ⟨(LittleEndian.toBytes 32 bytes).reverse.toArray, by simp⟩
    | _ => Vector.replicate 32 255
  ofBytes bytes := .address (LittleEndian.ofBytes bytes.reverse)

def framework : Framework where
  load := RunAccount.tryDeserializeUnchecked codec
  exit run data :=
    if (run.serialized codec).length ≤ data.length then
      .ok (run.serialized codec ++ data.drop (run.serialized codec).length)
    else .error (.anchor .accountDidNotSerialize)

omit [Runtime] in
theorem documented : framework.Documented codec where
  load _ := rfl
  exit _ _ fits := if_pos fits

/-- The market in which the node waits. -/
def waitingMarket : MarketAccount :=
  ⟨admin, 0, 2, 60, 0, vault, id.systemProgram, 0, QueueType.node.toU8, [node]⟩

end Sample

omit [Runtime] in
theorem assign_to_head_iff_list_sample :
    (∀ s', @list Sample.runtime (Sample.run Sample.waitingNode) Sample.listingForNode
        Sample.ipfsJob 30 = .ok s' ↔
      @assign Sample.runtime (Sample.run Sample.waitingNode)
        (Sample.listingForNode.toAssign Sample.node) Sample.ipfsJob 30 = .ok s') ∧
    ∃ data,
      RunAccount.initializeData Sample.codec (Sample.run Sample.waitingNode).clock Sample.project
        Sample.job Sample.node = .ok data ∧
      assignData Sample.framework (Sample.run Sample.waitingNode).clock Sample.project Sample.job
        Sample.node = .ok data ∧
      ∀ s', @list Sample.runtime (Sample.run Sample.waitingNode) Sample.listingForNode
          Sample.ipfsJob 30 = .ok s' →
        ∃ started ∈ s'.runs.lookup Sample.firstRun, started.node = Sample.node ∧
          data = started.data Sample.codec :=
  @assign_to_head_iff_list Sample.runtime _ Sample.genesis Sample.waitingNode Sample.framework
    Sample.codec Sample.documented Sample.listingForNode rfl Sample.waitingMarket
    (by decide +kernel) rfl Sample.node rfl Sample.ipfsJob 30

end Nosana.Jobs
