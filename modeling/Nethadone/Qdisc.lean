import Mathlib.Data.Rat.Defs
import Nethadone.Models

/-!
# The bandwidth classes

`handlers/qdisc.go`: the leaves of the HTB tree, an open pipe followed by
one degraded leaf for each configured class, and the class and qdisc
objects created for them. The floating point arithmetic is read as exact
rationals, truncated where the source converts to an unsigned integer.

A leaf's minor handle is computed in `uint16` from its index; whoever
names a leaf elsewhere has to arrive at the same number.
-/

namespace Nethadone

def mBit : Int := 1000 * 1000

def kBit : Int := 1000

def ms : Int := 1000

inductive LeafKind where
  | prio
  | netem
deriving Repr, DecidableEq

structure LeafConfig where
  rate : Int
  ceil : Int
  delay : Int
  variance : Int
  kind : LeafKind
  iface : Int
deriving Repr, DecidableEq

/-- Conversion to an unsigned integer that can hold the result. -/
def truncate (q : ℚ) : Int := q.num.tdiv q.den

def degradedLeaf (cfg : Config) (iface : Int) (i : Nat) : LeafConfig :=
  let factor : ℚ := (i : ℚ) / (cfg.numQdiscClasses : ℚ)
  let scaledRate : ℚ :=
    ((1 - factor) * ((cfg.startRateKbs - cfg.minRateKbs : Int) : ℚ) + (cfg.minRateKbs : ℚ))
      * (kBit : ℚ)
  let scaledDelay : ℚ := factor * (cfg.maxDelayMs : ℚ) * (ms : ℚ)
  { rate := truncate scaledRate
    ceil := truncate scaledRate
    kind := .netem
    delay := truncate scaledDelay
    variance := truncate (scaledDelay / 10)
    iface := iface }

def generateQdiscLeafNodes (cfg : Config) (iface : Int) : List LeafConfig :=
  { rate := 95 * mBit, ceil := 100 * mBit, kind := .prio, delay := 0, variance := 0,
    iface := iface }
    :: (List.range cfg.numQdiscClasses.toNat).map fun j => degradedLeaf cfg iface (j + 1)

@[simp] theorem length_generateQdiscLeafNodes (cfg : Config) (iface : Int) :
    (generateQdiscLeafNodes cfg iface).length = cfg.numQdiscClasses.toNat + 1 := by
  simp [generateQdiscLeafNodes]

/-- An HTB class under `1:1` with the qdisc hung below it. -/
structure LeafClass where
  handle : BitVec 16
  rate : Int
  ceil : Int
  kind : LeafKind
  latency : Int
  jitter : Int
  iface : Int
deriving Repr, DecidableEq

/-- `(uint16)(idx+1) * 16`. -/
def handleId (idx : Nat) : BitVec 16 := BitVec.ofNat 16 (idx + 1) * 16#16

/-- The objects created for the leaves, each call succeeding. -/
def createLeafQdiscs (leaves : List LeafConfig) : List LeafClass :=
  leaves.mapIdx fun idx leaf =>
    { handle := handleId idx
      rate := leaf.rate
      ceil := leaf.rate
      kind := leaf.kind
      latency := if leaf.kind = .netem then leaf.delay else 0
      jitter := if leaf.kind = .netem then leaf.variance else 0
      iface := leaf.iface }

def lanClasses (cfg : Config) (iface : Int) : List LeafClass :=
  createLeafQdiscs (generateQdiscLeafNodes cfg iface)

theorem lanClasses_handle {cfg : Config} {iface : Int} {idx : Nat} {c : LeafClass}
    (h : (lanClasses cfg iface)[idx]? = some c) :
    idx ≤ cfg.numQdiscClasses.toNat ∧ c.handle = handleId idx := by
  rw [lanClasses, createLeafQdiscs, List.getElem?_mapIdx, Option.map_eq_some_iff] at h
  obtain ⟨leaf, hleaf, rfl⟩ := h
  have hlt := (List.getElem?_eq_some_iff.mp hleaf).1
  rw [length_generateQdiscLeafNodes] at hlt
  exact ⟨by omega, rfl⟩

theorem exists_lanClass (cfg : Config) (iface : Int) {idx : Nat}
    (h : idx ≤ cfg.numQdiscClasses.toNat) :
    ∃ c, (lanClasses cfg iface)[idx]? = some c ∧ c.handle = handleId idx := by
  have hlt : idx < (lanClasses cfg iface).length := by
    simp [lanClasses, createLeafQdiscs]
    omega
  exact ⟨_, List.getElem?_eq_getElem hlt, (lanClasses_handle (List.getElem?_eq_getElem hlt)).2⟩

theorem toNat_handleId {idx : Nat} (h : idx < 4095) :
    (handleId idx).toNat = (idx + 1) * 16 := by
  rw [handleId, BitVec.toNat_mul, BitVec.toNat_ofNat, BitVec.toNat_ofNat]
  omega

theorem toNat_handleId_le (idx : Nat) : (handleId idx).toNat ≤ (idx + 1) * 16 := by
  rw [handleId, BitVec.toNat_mul, BitVec.toNat_ofNat, BitVec.toNat_ofNat]
  omega

end Nethadone
