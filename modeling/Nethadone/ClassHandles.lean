import Nethadone.Ladder
import Nethadone.Qdisc
import Nethadone.Throttle

/-!
# Three spellings of one ladder

A rung is a multiple of ten in the policy table, the digits of that number
behind `0x` in the generated program, and a multiple of sixteen among the
class handles. Reading decimal digits in base sixteen turns tens into
sixteens as long as there are two digits; the rung after 90 has three,
and `0x100` is not ten sixteens. So a table's spellings agree exactly when none
of its classes needs three digits (`tableLands_iff`), and those of every
reachable table when no reachable class does (`rungsLand_iff`).
-/

namespace Nethadone

/-- The class constant rendered for a policy of class `cls` is the minor
handle of leaf `idx`. -/
def LandsOn (cfg : Config) (iface : Int) (cls : Int) (idx : Nat) : Prop :=
  ∃ c, (lanClasses cfg iface)[idx]? = some c ∧
    Numeral.cIntConst (classIdLiteral cls) = some c.handle.toNat

/-- Every class a policy run can produce names exactly one leaf, the one with
index `cls / 10 - 1`, and higher classes name later leaves. -/
def RungsLand (cfg : Config) : Prop :=
  ∀ (iface : Int) (T : PolicyTable), Reachable cfg T → ∀ p ∈ T.rows,
    (∃! idx, LandsOn cfg iface p.cls idx)
      ∧ LandsOn cfg iface p.cls (p.cls / 10 - 1).toNat
      ∧ ∀ T' : PolicyTable, Reachable cfg T' → ∀ p' ∈ T'.rows, p.cls < p'.cls →
          ∀ i j, LandsOn cfg iface p.cls i → LandsOn cfg iface p'.cls j → i < j

theorem classIdLiteral_rung (k : Nat) :
    classIdLiteral (10 * (k + 1)) = '0' :: 'x' :: Numeral.decimal (10 * (k + 1)) := by
  have hcast : (10 * (k + 1) : Int) = ((10 * (k + 1) : Nat) : Int) := by push_cast; ring
  rw [classIdLiteral, hcast, Numeral.decimalInt_natCast]

theorem cIntConst_rung {k : Nat} (hk : k ≤ 8) :
    Numeral.cIntConst (classIdLiteral (10 * (k + 1))) = some ((k + 1) * 16) := by
  have hval : Numeral.hexOfDecimal (10 * (k + 1)) = (k + 1) * 16 := by
    rw [Numeral.hexOfDecimal_of_le (by omega), Nat.mul_div_cancel_left _ (by decide),
      Numeral.hexOfDecimal_of_lt (by omega)]
    omega
  rw [classIdLiteral_rung, Numeral.cIntConst_hex (by omega), hval]

theorem cIntConst_tenth_rung :
    Numeral.cIntConst (classIdLiteral (10 * ((9 : Nat) + 1))) = some 256 := by
  decide

/-- With three digits or more the constant is past the rung's own handle. -/
theorem lt_of_cIntConst_rung {k v : Nat} (hk : 9 ≤ k)
    (h : Numeral.cIntConst (classIdLiteral (10 * (k + 1))) = some v) : (k + 1) * 16 < v := by
  rw [classIdLiteral_rung] at h
  have hlt : k + 1 < Numeral.hexOfDecimal (k + 1) := Numeral.lt_hexOfDecimal (by omega)
  rw [Numeral.eq_of_cIntConst_hex h, Numeral.hexOfDecimal_of_le (by omega),
    Nat.mul_div_cancel_left _ (by decide)]
  omega

theorem landsOn_iff {cfg : Config} {iface cls : Int} {idx : Nat} :
    LandsOn cfg iface cls idx ↔ idx ≤ cfg.numQdiscClasses.toNat ∧
      Numeral.cIntConst (classIdLiteral cls) = some (handleId idx).toNat := by
  constructor
  · rintro ⟨c, hc, hcls⟩
    obtain ⟨hle, hh⟩ := lanClasses_handle hc
    exact ⟨hle, hh ▸ hcls⟩
  · rintro ⟨hle, hcls⟩
    obtain ⟨c, hc, hh⟩ := exists_lanClass cfg iface hle
    exact ⟨c, hc, hh ▸ hcls⟩

instance (cfg : Config) (iface cls : Int) (idx : Nat) : Decidable (LandsOn cfg iface cls idx) :=
  decidable_of_iff _ landsOn_iff.symm

theorem landsOn_rung_iff {cfg : Config} {iface : Int} (hN : cfg.numQdiscClasses < 4095) {k : Nat}
    (h8 : k ≤ 8) (hk : k ≤ cfg.numQdiscClasses.toNat) {idx : Nat} :
    LandsOn cfg iface (10 * (k + 1)) idx ↔ idx = k := by
  rw [landsOn_iff, cIntConst_rung h8, Option.some.injEq]
  constructor
  · rintro ⟨hidx, hh⟩
    rw [toNat_handleId (by omega)] at hh
    omega
  · rintro rfl
    exact ⟨hk, (toNat_handleId (by omega)).symm⟩

/-- A rung's constant names its own leaf exactly while it has two digits. -/
theorem landsOn_own_iff {cfg : Config} {iface : Int} {k : Nat} :
    LandsOn cfg iface (10 * (k + 1)) k ↔ k ≤ cfg.numQdiscClasses.toNat ∧ k ≤ 8 := by
  rw [landsOn_iff]
  refine and_congr_right fun _ => ⟨fun h => ?_, fun hk => ?_⟩
  · by_contra hk
    have hlt := lt_of_cIntConst_rung (by omega) h
    have hle := toNat_handleId_le k
    omega
  · rw [cIntConst_rung hk, toNat_handleId (by omega)]

theorem Reachable.landsOn_iff_of_lt {cfg : Config} {T : PolicyTable} (hT : Reachable cfg T)
    (hN : cfg.numQdiscClasses < 4095) {p : Policy} (hp : p ∈ T.rows) (hcls : p.cls < 100) :
    ∃ k : Nat, p.cls = 10 * (k + 1) ∧ ∀ iface idx, LandsOn cfg iface p.cls idx ↔ idx = k := by
  obtain ⟨k, hk, hrung⟩ := hT.onLadder_of_mem hp
  exact ⟨k, hrung, fun _ _ => hrung ▸ landsOn_rung_iff hN (by omega) hk⟩

/-- The rows of one table name leaves as `RungsLand` asks. -/
def TableLands (cfg : Config) (iface : Int) (T : PolicyTable) : Prop :=
  ∀ p ∈ T.rows, (∃! idx, LandsOn cfg iface p.cls idx)
    ∧ LandsOn cfg iface p.cls (p.cls / 10 - 1).toNat
    ∧ ∀ p' ∈ T.rows, p.cls < p'.cls →
        ∀ i j, LandsOn cfg iface p.cls i → LandsOn cfg iface p'.cls j → i < j

/-- Table by table the spellings agree exactly when no row has a class of three
digits, as long as the kernel has a handle of its own for every leaf. -/
theorem tableLands_iff {cfg : Config} (hN : cfg.numQdiscClasses < 4095) (iface : Int)
    {T : PolicyTable} (hT : Reachable cfg T) :
    TableLands cfg iface T ↔ ∀ p ∈ T.rows, p.cls < 100 := by
  constructor
  · intro h p hp
    obtain ⟨k, hk, hcls⟩ := hT.onLadder_of_mem hp
    have hown := (h p hp).2.1
    have hidx : (p.cls / 10 - 1).toNat = k := by omega
    rw [hidx, hcls, landsOn_own_iff] at hown
    omega
  · intro h p hp
    obtain ⟨k, hcls, hk⟩ := hT.landsOn_iff_of_lt hN hp (h p hp)
    have hidx : (p.cls / 10 - 1).toNat = k := by omega
    refine ⟨⟨k, (hk ..).mpr rfl, fun j => (hk iface j).mp⟩, (hk ..).mpr hidx, ?_⟩
    intro p' hp' hlt i j hi hj
    obtain ⟨k', hcls', hk'⟩ := hT.landsOn_iff_of_lt hN hp' (h p' hp')
    rw [(hk ..).mp hi, (hk' ..).mp hj]
    omega

theorem rungsLand_of_le {cfg : Config} (hN : cfg.numQdiscClasses ≤ 8) : RungsLand cfg := by
  have hlow : ∀ T, Reachable cfg T → ∀ p ∈ T.rows, p.cls < 100 := by
    intro T hT p hp
    obtain ⟨k, hk, hcls⟩ := hT.onLadder_of_mem hp
    omega
  intro iface T hT p hp
  obtain ⟨huniq, hown, -⟩ := (tableLands_iff (by omega) iface hT).mpr (hlow T hT) p hp
  refine ⟨huniq, hown, fun T' hT' p' hp' hlt i j hi hj => ?_⟩
  obtain ⟨k, hcls, hk⟩ := hT.landsOn_iff_of_lt (by omega) hp (hlow T hT p hp)
  obtain ⟨k', hcls', hk'⟩ := hT'.landsOn_iff_of_lt (by omega) hp' (hlow T' hT' p' hp')
  rw [(hk ..).mp hi, (hk' ..).mp hj]
  omega

/-- The three spellings agree exactly for at most eight configured classes. -/
theorem rungsLand_iff (cfg : Config) : RungsLand cfg ↔ cfg.numQdiscClasses ≤ 8 := by
  refine ⟨fun h => ?_, rungsLand_of_le⟩
  by_contra hN
  obtain ⟨T, p, hT, hp, hcls⟩ := exists_reachable_rung cfg ⟨[], []⟩ 9 (by omega)
  obtain ⟨-, hland, -⟩ := h 0 T hT p (KeyedTable.lookup_eq_some.mp hp).1
  rw [hcls] at hland
  have htwo : 9 ≤ 8 := (landsOn_own_iff.mp hland).2
  omega

/-- With nine configured classes, a client kept busy for ten ticks is sent to a
class that was never created. -/
theorem nine_classes_misland :
    ¬RungsLand { baseConfig with numQdiscClasses := 9 } ∧
      ∃ T p, Reachable { baseConfig with numQdiscClasses := 9 } T ∧
        T.lookup redditClient = some p ∧ p.cls = 100 ∧
        ∀ idx, ¬LandsOn { baseConfig with numQdiscClasses := 9 } 0 p.cls idx := by
  obtain ⟨T, p, hT, hp, hcls⟩ :=
    exists_reachable_rung { baseConfig with numQdiscClasses := 9 } redditClient 9 (by decide)
  have hnone : ∀ idx, ¬LandsOn { baseConfig with numQdiscClasses := 9 } 0 p.cls idx := by
    intro idx
    rw [hcls, landsOn_iff, cIntConst_tenth_rung]
    rintro ⟨hidx, hh⟩
    have hidx' : idx ≤ 9 := hidx
    rw [toNat_handleId (by omega), Option.some.injEq] at hh
    omega
  refine ⟨fun h => ?_, T, p, hT, hp, by rw [hcls]; rfl, hnone⟩
  obtain ⟨⟨idx, hidx, -⟩, -⟩ := h 0 T hT p (KeyedTable.lookup_eq_some.mp hp).1
  exact hnone idx hidx

end Nethadone
