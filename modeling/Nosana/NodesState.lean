import Nosana.Accounts
import Nosana.Method
import Nosana.NodesTypes

set_option autoImplicit false

/- The account of a node, and the methods that fill it. -/
namespace Nosana.Nodes

open Method (require)

/-- What is registered of a node, as the arguments of `register` and `update` give it. -/
structure NodeSpec where
  architecture : UInt8
  country : UInt16
  cpu : UInt16
  gpu : UInt16
  memory : UInt16
  iops : UInt16
  storage : UInt16
  endpoint : String
  icon : String
  version : String
  deriving DecidableEq, Repr

structure NodeAccount where
  authority : Pubkey
  audited : Bool
  architecture : UInt8
  country : UInt16
  cpu : UInt16
  gpu : UInt16
  memory : UInt16
  iops : UInt16
  storage : UInt16
  endpoint : String
  icon : String
  version : String
  deriving DecidableEq, Repr

namespace NodeSpec

/-- The arguments that are meant to be accepted. -/
structure Listed (spec : NodeSpec) : Prop where
  architecture : ArchitectureType.ofU8 spec.architecture ≠ .unknown
  country : CountryCode.ofU16 spec.country ≠ .unknown
  cpu : spec.cpu ≠ 0
  memory : spec.memory ≠ 0
  iops : spec.iops ≠ 0
  storage : spec.storage ≠ 0

/-- The account with these arguments in it. -/
def fill (spec : NodeSpec) (self : NodeAccount) : NodeAccount where
  authority := self.authority
  audited := self.audited
  architecture := spec.architecture
  country := spec.country
  cpu := spec.cpu
  gpu := spec.gpu
  memory := spec.memory
  iops := spec.iops
  storage := spec.storage
  endpoint := spec.endpoint
  icon := spec.icon
  version := spec.version

end NodeSpec

namespace NodeAccount

/-- The discriminator and the size of the structure in memory, 118 bytes aligned to 120. -/
def size : Nat := 8 + 120

/-- The zeroed account that `init` creates. -/
def zeroed : NodeAccount := ⟨id.systemProgram, false, 0, 0, 0, 0, 0, 0, 0, "", "", ""⟩

/-- The length of the account with its discriminator. A string is preceded by its length. -/
def serializedLength (self : NodeAccount) : Nat :=
  8 + 32 + 1 + 1 + 6 * 2 + (4 + self.endpoint.utf8ByteSize) + (4 + self.icon.utf8ByteSize) +
    (4 + self.version.utf8ByteSize)

def register (authority : Pubkey) : Method Error NodeAccount Unit :=
  modify fun self => { self with authority := authority }

def audit (audited : Bool) : Method Error NodeAccount Unit :=
  modify fun self => { self with audited := audited }

def update (spec : NodeSpec) : Method Error NodeAccount Unit := do
  require ((ArchitectureType.ofU8 spec.architecture).toU8 ≠ ArchitectureType.unknown.toU8)
    (.nodes .architectureUnknown)
  require ((CountryCode.ofU16 spec.country).asU8 ≠ CountryCode.unknown.asU8)
    (.nodes .countryCodeUnknown)
  require (spec.cpu > 0) (.nodes .cpuInvalid)
  require (spec.gpu ≥ 0) (.nodes .gpuInvalid)
  require (spec.memory > 0) (.nodes .memoryInvalid)
  require (spec.iops > 0) (.nodes .iopsInvalid)
  require (spec.storage > 0) (.nodes .storageInvalid)
  modify fun self => { self with country := spec.country }
  modify fun self => { self with architecture := spec.architecture }
  modify fun self => { self with cpu := spec.cpu }
  modify fun self => { self with gpu := spec.gpu }
  modify fun self => { self with memory := spec.memory }
  modify fun self => { self with iops := spec.iops }
  modify fun self => { self with storage := spec.storage }
  modify fun self => { self with endpoint := spec.endpoint }
  modify fun self => { self with icon := spec.icon }
  modify fun self => { self with version := spec.version }

/-- What is registered of the node. -/
def spec (self : NodeAccount) : NodeSpec :=
  ⟨self.architecture, self.country, self.cpu, self.gpu, self.memory, self.iops, self.storage,
    self.endpoint, self.icon, self.version⟩

end NodeAccount

namespace NodeSpec

/-- The arguments that are accepted. -/
def Accepted (spec : NodeSpec) : Prop := spec.Listed ∧ spec.country ≠ CountryCode.ET.toU16

theorem unsigned_pos {value : UInt16} : value > 0 ↔ value ≠ 0 := by
  rw [gt_iff_lt, UInt16.lt_iff_toNat_lt, Ne, ← UInt16.toNat_inj]
  exact Nat.pos_iff_ne_zero

theorem unsigned_nonneg (value : UInt16) : value ≥ 0 := by
  rw [ge_iff_le, UInt16.le_iff_toNat_le]
  exact Nat.zero_le _

/-- The checks come before anything is written. -/
theorem update_atomic (spec : NodeSpec) :
    (NodeAccount.update spec).Atomic spec.Accepted spec.fill := by
  have checked : (NodeAccount.update spec).Atomic _ spec.fill :=
    .require (.require (.require (.require (.require (.require (.require
      (.of_total fun _ => rfl)))))))
  apply checked.congr
  simp only [ArchitectureType.toU8_ne_unknown, CountryCode.asU8_ne_unknown, unsigned_pos,
    unsigned_nonneg, true_and, and_true]
  constructor
  · rintro ⟨architecture, ⟨country, other⟩, cpu, memory, iops, storage⟩
    exact ⟨⟨architecture, country, cpu, memory, iops, storage⟩, other⟩
  · rintro ⟨⟨architecture, country, cpu, memory, iops, storage⟩, other⟩
    exact ⟨architecture, ⟨country, other⟩, cpu, memory, iops, storage⟩

end NodeSpec

end Nosana.Nodes
