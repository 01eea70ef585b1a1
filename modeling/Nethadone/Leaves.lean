import Mathlib.Data.Rat.Floor
import Mathlib.Tactic.FieldSimp
import Mathlib.Tactic.Linarith
import Mathlib.Tactic.Positivity
import Mathlib.Data.List.Range
import Nethadone.Qdisc

/-!
# From the open pipe to the last leaf

The interpolated leaves get slower and later from each to the next, down to
the configured minimum rate and maximum delay, whatever the configuration.
The open pipe before them is meant to be "based on the configured bandwidth
for the WAN" and is a constant. So there is one place where the ladder can
go up, the step to leaf 1, and it does when that leaf's rate is above the
constant (`leaves_onlyWorsen_iff`).
-/

namespace Nethadone

def openPipe (iface : Int) : LeafConfig :=
  { rate := 95 * mBit, ceil := 100 * mBit, kind := .prio, delay := 0, variance := 0,
    iface := iface }

/-- Leaf `b` serves no better than leaf `a`. -/
structure LeafConfig.Worsens (a b : LeafConfig) : Prop where
  rate : b.rate ≤ a.rate
  delay : a.delay ≤ b.delay
  variance : a.variance ≤ b.variance

structure OnlyWorsens (cfg : Config) (leaves : List LeafConfig) : Prop where
  length : leaves.length = cfg.numQdiscClasses.toNat + 1
  chain : leaves.IsChain LeafConfig.Worsens
  floor : ∀ l ∈ leaves, cfg.minRateKbs * 1000 ≤ l.rate ∧ 0 < l.rate
  last : ∃ l, leaves.getLast? = some l ∧ l.rate = cfg.minRateKbs * 1000
    ∧ l.delay = cfg.maxDelayMs * 1000

/-- A configuration whose rates are in order. -/
structure Config.RatesOrdered (cfg : Config) : Prop where
  classes : 1 ≤ cfg.numQdiscClasses
  min_pos : 0 < cfg.minRateKbs
  min_le : cfg.minRateKbs ≤ cfg.startRateKbs
  start_le : cfg.startRateKbs ≤ cfg.wanMbps * 1000
  delay : 0 ≤ cfg.maxDelayMs

/-! ## Truncation -/

theorem truncate_eq_floor {q : ℚ} (h : 0 ≤ q) : truncate q = ⌊q⌋ := by
  rw [truncate, Rat.floor_def', Int.tdiv_eq_ediv_of_nonneg (Rat.num_nonneg.mpr h)]

theorem truncate_nonneg {q : ℚ} (h : 0 ≤ q) : 0 ≤ truncate q := by
  rw [truncate_eq_floor h]
  exact Int.floor_nonneg.mpr h

theorem truncate_mono {q q' : ℚ} (h : 0 ≤ q) (hle : q ≤ q') : truncate q ≤ truncate q' := by
  rw [truncate_eq_floor h, truncate_eq_floor (h.trans hle)]
  exact Int.floor_mono hle

theorem truncate_intCast (n : Int) : truncate (n : ℚ) = n := by
  simp [truncate]

/-! ## The interpolated leaves -/

def scaledRate (cfg : Config) (i : Nat) : ℚ :=
  ((1 - (i : ℚ) / (cfg.numQdiscClasses : ℚ))
    * ((cfg.startRateKbs - cfg.minRateKbs : Int) : ℚ) + (cfg.minRateKbs : ℚ)) * (kBit : ℚ)

def scaledDelay (cfg : Config) (i : Nat) : ℚ :=
  (i : ℚ) / (cfg.numQdiscClasses : ℚ) * (cfg.maxDelayMs : ℚ) * (ms : ℚ)

section Interpolated

variable {cfg : Config} {iface : Int} {i j : Nat}

theorem degradedLeaf_eq : degradedLeaf cfg iface i
    = { rate := truncate (scaledRate cfg i), ceil := truncate (scaledRate cfg i), kind := .netem,
        delay := truncate (scaledDelay cfg i), variance := truncate (scaledDelay cfg i / 10),
        iface := iface } := rfl

theorem generateQdiscLeafNodes_eq : generateQdiscLeafNodes cfg iface
    = openPipe iface :: (List.range cfg.numQdiscClasses.toNat).map
        fun j => degradedLeaf cfg iface (j + 1) := rfl

theorem factor_mono (hN : 1 ≤ cfg.numQdiscClasses) (hij : i ≤ j) :
    (i : ℚ) / (cfg.numQdiscClasses : ℚ) ≤ (j : ℚ) / (cfg.numQdiscClasses : ℚ) := by
  have hN' : (1 : ℚ) ≤ (cfg.numQdiscClasses : ℚ) := by exact_mod_cast hN
  have hij' : (i : ℚ) ≤ (j : ℚ) := by exact_mod_cast hij
  gcongr

theorem factor_le_one (hN : 1 ≤ cfg.numQdiscClasses) (hi : i ≤ cfg.numQdiscClasses.toNat) :
    (i : ℚ) / (cfg.numQdiscClasses : ℚ) ≤ 1 := by
  have hN' : (0 : ℚ) < (cfg.numQdiscClasses : ℚ) := by exact_mod_cast (by omega)
  have hi' : (i : ℚ) ≤ (cfg.numQdiscClasses : ℚ) := by
    have : (i : Int) ≤ cfg.numQdiscClasses := by omega
    exact_mod_cast this
  rwa [div_le_one hN']

theorem scaledRate_anti (h : cfg.RatesOrdered) (hij : i ≤ j) :
    scaledRate cfg j ≤ scaledRate cfg i := by
  have hf := factor_mono h.classes hij
  have hspan : (0 : ℚ) ≤ ((cfg.startRateKbs - cfg.minRateKbs : Int) : ℚ) := by
    exact_mod_cast sub_nonneg.mpr h.min_le
  have hk : (0 : ℚ) ≤ (kBit : ℚ) := by norm_num [kBit]
  unfold scaledRate
  gcongr

/-- No interpolated leaf is slower than the configured minimum. -/
theorem minRate_le_scaledRate (h : cfg.RatesOrdered) (hi : i ≤ cfg.numQdiscClasses.toNat) :
    ((cfg.minRateKbs * 1000 : Int) : ℚ) ≤ scaledRate cfg i := by
  have hf := factor_le_one h.classes hi
  have hspan : (0 : ℚ) ≤ ((cfg.startRateKbs - cfg.minRateKbs : Int) : ℚ) := by
    exact_mod_cast sub_nonneg.mpr h.min_le
  have hup : 0 ≤ (1 - (i : ℚ) / (cfg.numQdiscClasses : ℚ))
      * ((cfg.startRateKbs - cfg.minRateKbs : Int) : ℚ) :=
    mul_nonneg (sub_nonneg.mpr hf) hspan
  simp only [scaledRate, kBit]
  push_cast at hup ⊢
  linarith

theorem scaledDelay_nonneg (h : cfg.RatesOrdered) (i : Nat) : 0 ≤ scaledDelay cfg i := by
  have hN : (0 : ℚ) ≤ (cfg.numQdiscClasses : ℚ) := by exact_mod_cast (by have := h.classes; omega)
  have hd : (0 : ℚ) ≤ (cfg.maxDelayMs : ℚ) := by exact_mod_cast h.delay
  have hms : (0 : ℚ) ≤ (ms : ℚ) := by norm_num [ms]
  unfold scaledDelay
  positivity

theorem scaledDelay_mono (h : cfg.RatesOrdered) (hij : i ≤ j) :
    scaledDelay cfg i ≤ scaledDelay cfg j := by
  have hf := factor_mono h.classes hij
  have hd : (0 : ℚ) ≤ (cfg.maxDelayMs : ℚ) := by exact_mod_cast h.delay
  have hms : (0 : ℚ) ≤ (ms : ℚ) := by norm_num [ms]
  unfold scaledDelay
  gcongr

theorem scaledRate_nonneg (h : cfg.RatesOrdered) (hi : i ≤ cfg.numQdiscClasses.toNat) :
    0 ≤ scaledRate cfg i := by
  refine le_trans ?_ (minRate_le_scaledRate h hi)
  have := h.min_pos
  exact_mod_cast (by omega : (0 : Int) ≤ cfg.minRateKbs * 1000)

theorem degradedLeaf_worsens (h : cfg.RatesOrdered) (hij : i ≤ j)
    (hj : j ≤ cfg.numQdiscClasses.toNat) :
    (degradedLeaf cfg iface i).Worsens (degradedLeaf cfg iface j) := by
  have hdelay := scaledDelay_mono h hij
  have hpos := scaledDelay_nonneg h i
  rw [degradedLeaf_eq, degradedLeaf_eq]
  exact ⟨truncate_mono (scaledRate_nonneg h hj) (scaledRate_anti h hij),
    truncate_mono hpos hdelay, truncate_mono (by positivity) (by gcongr)⟩

theorem minRate_le_degradedLeaf (h : cfg.RatesOrdered) (hi : i ≤ cfg.numQdiscClasses.toNat) :
    cfg.minRateKbs * 1000 ≤ (degradedLeaf cfg iface i).rate := by
  rw [degradedLeaf_eq, truncate_eq_floor (scaledRate_nonneg h hi)]
  exact Int.le_floor.mpr (minRate_le_scaledRate h hi)

theorem degradedLeaf_last (h : cfg.RatesOrdered) :
    (degradedLeaf cfg iface cfg.numQdiscClasses.toNat).rate = cfg.minRateKbs * 1000
      ∧ (degradedLeaf cfg iface cfg.numQdiscClasses.toNat).delay = cfg.maxDelayMs * 1000 := by
  have hN := h.classes
  have hcast : ((cfg.numQdiscClasses.toNat : Nat) : ℚ) = (cfg.numQdiscClasses : ℚ) := by
    exact_mod_cast Int.toNat_of_nonneg (by omega)
  have hne : (cfg.numQdiscClasses : ℚ) ≠ 0 := by exact_mod_cast (by omega)
  have hrate : scaledRate cfg cfg.numQdiscClasses.toNat = ((cfg.minRateKbs * 1000 : Int) : ℚ) := by
    rw [scaledRate, hcast, div_self hne, kBit]
    push_cast
    ring
  have hdelay : scaledDelay cfg cfg.numQdiscClasses.toNat
      = ((cfg.maxDelayMs * 1000 : Int) : ℚ) := by
    rw [scaledDelay, hcast, div_self hne, ms]
    push_cast
    ring
  rw [degradedLeaf_eq, hrate, hdelay, truncate_intCast, truncate_intCast]
  exact ⟨rfl, rfl⟩

/-! ## The step down from the open pipe -/

theorem scaledRate_one_lt_iff (hN : 1 ≤ cfg.numQdiscClasses) :
    scaledRate cfg 1 < 95000001 ↔
      1000 * ((cfg.numQdiscClasses - 1) * (cfg.startRateKbs - cfg.minRateKbs)
        + cfg.numQdiscClasses * cfg.minRateKbs) < 95000001 * cfg.numQdiscClasses := by
  have hpos : (0 : ℚ) < (cfg.numQdiscClasses : ℚ) := by exact_mod_cast (by omega)
  -- the rate with its denominator cleared
  have hmul : scaledRate cfg 1 * (cfg.numQdiscClasses : ℚ)
      = ((1000 * ((cfg.numQdiscClasses - 1) * (cfg.startRateKbs - cfg.minRateKbs)
        + cfg.numQdiscClasses * cfg.minRateKbs) : Int) : ℚ) := by
    simp only [scaledRate, kBit]
    push_cast
    field_simp
  rw [← mul_lt_mul_iff_left₀ hpos, hmul]
  exact_mod_cast Iff.rfl

theorem openPipe_worsens_iff (h : cfg.RatesOrdered) :
    (openPipe iface).Worsens (degradedLeaf cfg iface 1) ↔
      1000 * ((cfg.numQdiscClasses - 1) * (cfg.startRateKbs - cfg.minRateKbs)
        + cfg.numQdiscClasses * cfg.minRateKbs) < 95000001 * cfg.numQdiscClasses := by
  have hN : 1 ≤ cfg.numQdiscClasses.toNat := by have := h.classes; omega
  have hdelay := scaledDelay_nonneg h 1
  have hrate : (degradedLeaf cfg iface 1).rate ≤ (openPipe iface).rate ↔
      scaledRate cfg 1 < 95000001 := by
    have hcast : ((95000000 + 1 : Int) : ℚ) = 95000001 := by norm_num
    rw [degradedLeaf_eq, truncate_eq_floor (scaledRate_nonneg h hN), ← Int.lt_add_one_iff,
      Int.floor_lt]
    exact hcast ▸ Iff.rfl
  rw [← scaledRate_one_lt_iff h.classes, ← hrate]
  refine ⟨LeafConfig.Worsens.rate, fun hle => ⟨hle, ?_, ?_⟩⟩
  · exact truncate_nonneg hdelay
  · exact truncate_nonneg (by positivity)

theorem chain_iff (h : cfg.RatesOrdered) :
    (generateQdiscLeafNodes cfg iface).IsChain LeafConfig.Worsens ↔
      (openPipe iface).Worsens (degradedLeaf cfg iface 1) := by
  have hN := h.classes
  obtain ⟨n, hn⟩ : ∃ n, cfg.numQdiscClasses.toNat = n + 1 :=
    ⟨cfg.numQdiscClasses.toNat - 1, by omega⟩
  have htail : ((List.range (n + 1)).map fun j => degradedLeaf cfg iface (j + 1)).IsChain
      LeafConfig.Worsens := by
    rw [List.isChain_map, List.isChain_range_succ]
    exact fun m hm => degradedLeaf_worsens h (Nat.le_succ _) (by omega)
  rw [generateQdiscLeafNodes_eq, hn, List.isChain_cons, and_iff_left htail]
  simp [List.range_succ_eq_map]

end Interpolated

/-- The ladder only gets worse exactly when leaf 1 is interpolated to at most
95 Mbit/s, the rate of the open pipe under every configured bandwidth. -/
theorem leaves_onlyWorsen_iff (cfg : Config) (h : cfg.RatesOrdered) (iface : Int) :
    (OnlyWorsens cfg (generateQdiscLeafNodes cfg iface) ↔
      1000 * ((cfg.numQdiscClasses - 1) * (cfg.startRateKbs - cfg.minRateKbs)
        + cfg.numQdiscClasses * cfg.minRateKbs) < 95000001 * cfg.numQdiscClasses) ∧
    ∀ wan, generateQdiscLeafNodes { cfg with wanMbps := wan } iface
      = generateQdiscLeafNodes cfg iface := by
  have hN := h.classes
  refine ⟨?_, fun _ => rfl⟩
  rw [← @openPipe_worsens_iff cfg iface h]
  refine ⟨fun hw => (chain_iff h).mp hw.chain, fun hjoin =>
    ⟨length_generateQdiscLeafNodes cfg iface, (chain_iff h).mpr hjoin, fun l hl => ?_, ?_⟩⟩
  · have hmin : cfg.minRateKbs * 1000 ≤ l.rate := by
      rw [generateQdiscLeafNodes_eq, List.mem_cons, List.mem_map] at hl
      rcases hl with rfl | ⟨j, hj, rfl⟩
      · exact (minRate_le_degradedLeaf h (by omega)).trans hjoin.rate
      · exact minRate_le_degradedLeaf h (List.mem_range.mp hj)
    have := h.min_pos
    exact ⟨hmin, by omega⟩
  · refine ⟨degradedLeaf cfg iface cfg.numQdiscClasses.toNat, ?_, degradedLeaf_last h⟩
    obtain ⟨n, hn⟩ : ∃ n, cfg.numQdiscClasses.toNat = n + 1 :=
      ⟨cfg.numQdiscClasses.toNat - 1, by omega⟩
    rw [generateQdiscLeafNodes_eq, hn, List.range_succ, List.map_append, ← List.cons_append]
    exact List.getLast?_concat

theorem baseConfig_leaves_onlyWorsen :
    (OnlyWorsens baseConfig (generateQdiscLeafNodes baseConfig 3) ↔
      (1000 * ((5 - 1) * (1000 - 50) + 5 * 50) : Int) < 95000001 * 5) ∧
    ∀ wan, generateQdiscLeafNodes { baseConfig with wanMbps := wan } 3
      = generateQdiscLeafNodes baseConfig 3 :=
  leaves_onlyWorsen_iff baseConfig ⟨by decide, by decide, by decide, by decide, by decide⟩ 3

def fibreConfig : Config := { baseConfig with wanMbps := 1000, startRateKbs := 500000 }

/-- On a gigabit line the first throttled class is four times as fast as the
open pipe. -/
theorem throttled_faster_than_open :
    fibreConfig.RatesOrdered ∧
      (generateQdiscLeafNodes fibreConfig 3).map (·.rate)
        = [95000000, 400010000, 300020000, 200030000, 100040000, 50000] ∧
      ¬OnlyWorsens fibreConfig (generateQdiscLeafNodes fibreConfig 3) := by
  have hrates : (generateQdiscLeafNodes fibreConfig 3).map (·.rate)
      = [95000000, 400010000, 300020000, 200030000, 100040000, 50000] := by decide +kernel
  refine ⟨⟨by decide, by decide, by decide, by decide, by decide⟩, hrates, fun h => ?_⟩
  have hchain : ((generateQdiscLeafNodes fibreConfig 3).map (·.rate)).IsChain fun a b => b ≤ a :=
    List.isChain_map _ |>.mpr (h.chain.imp fun _ _ hw => hw.rate)
  rw [hrates, List.isChain_cons_cons] at hchain
  exact absurd hchain.1 (by decide)

end Nethadone
