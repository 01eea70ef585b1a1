import Nethadone.Host

/-!
# What a request does

A triple for each kind of request, over the trees alone: accepted, it does
what `Host.Lawful` says; refused, it has changed nothing, and the host was
not obliging. An obliging host refuses nothing it could do, so a program
that stops on none of its requests comes to its end (`Obliging`). `E` is
what a caller wants to know of a stop.
-/

namespace Nethadone

open Fatal

/-! ## Hosts that refuse nothing they could do -/

/-- The object has room among those of its tree. A class needs a rate, which the
kernel takes in bytes. -/
structure Fits (objs : Multiset TcObject) (o : TcObject) : Prop where
  top : o.IsTop → objs = 0
  parent : ¬o.IsTop → ∃ q ∈ objs, q.isFilter = false
    ∧ (q.handle = o.parent ∨ o.isFilter = true ∧ q.handle = ⟨o.parent.major, 0⟩)
  fresh : o.isFilter = false → ∀ q ∈ objs, q.isFilter = false → q.handle ≠ o.handle
  rate : ∀ rate ceil, o.kind = .htbClass rate ceil → 8 ≤ rate ∧ 8 ≤ ceil

theorem hook_of_major {h : Handle} (hmajor : h.major = 1) : h.hook = .root := by
  rw [Handle.hook, if_neg, if_neg (by rw [hmajor]; decide)]
  rintro rfl
  cases hmajor

theorem not_isTop {o : TcObject} (hmajor : o.parent.major = 1) : ¬o.IsTop := by
  rintro (h | h)
  · rw [h] at hmajor
    cases hmajor
  · rw [h] at hmajor
    cases hmajor

namespace Host

variable {κ : Type}

/-- The interface is one of the two configured ones. -/
def Serves (H : Host κ) (ifs : Interfaces) (link : Int) : Prop :=
  link = H.index ifs.lanInterface ∨ link = H.index ifs.wanInterface

structure Obliging (H : Host κ) (ifs : Interfaces) : Prop where
  work : ∀ k w, (H.send k (.work w)).1 = true
  qdiscDel : ∀ k link parent, H.Serves ifs link → H.trees k (link, parent.hook) ≠ 0 →
    (H.send k (.qdiscDel link parent)).1 = true
  add : ∀ k link o, H.Serves ifs link → Fits (H.trees k (link, o.hook)) o →
    (H.send k (.add link o)).1 = true
  interface : ∀ k name, name = ifs.lanInterface ∨ name = ifs.wanInterface →
    (H.interfaceByName k name).isSome
  listFilters : ∀ k link parent, H.Serves ifs link → (H.listFilters k link parent).isSome

variable {H : Host κ} {ifs : Interfaces} {t : Trees} {link : Int} {o : TcObject} {name : Text}
  {E : κ → Prop}

theorem exec_attempt (r : Request) (k : κ) :
    (H.attempt r).exec k = (some (H.send k r).1, (H.send k r).2) := rfl

theorem exec_must (r : Request) (k : κ) :
    (H.must r).exec k = (if (H.send k r).1 then some () else none, (H.send k r).2) := by
  rw [must, exec_bind, exec_attempt]
  cases (H.send k r).1 with
  | true => rfl
  | false => rfl

theorem exec_get (k : κ) : Prog.exec (get : Prog κ κ) k = (some k, k) := rfl

theorem exec_getInterface (k : κ) :
    (H.getInterface name).exec k = (H.interfaceByName k name, k) := by
  rw [getInterface, exec_bind, exec_get]
  dsimp only
  cases H.interfaceByName k name with
  | some i => rfl
  | none => rfl

theorem exec_getFilters (parent : Handle) (k : κ) :
    (H.getFilters link parent).exec k = (H.listFilters k link parent, k) := by
  rw [getFilters, exec_bind, exec_get]
  dsimp only
  cases H.listFilters k link parent with
  | some fs => rfl
  | none => rfl

theorem triple_must {r : Request} {P : κ → Prop} {Q : Unit → κ → Prop}
    (hQ : ∀ k k', P k → H.send k r = (true, k') → Q () k')
    (hE : ∀ k k', P k → H.send k r = (false, k') → E k') : Triple P (H.must r) Q E := by
  intro k hk
  rw [exec_must]
  rcases hsend : H.send k r with ⟨_ | _, k'⟩
  · exact hE k k' hk hsend
  · exact hQ k k' hk hsend

/-- A stop at a request that an obliging host would have accepted. -/
theorem not_obliging {r : Request} {k k' : κ} (hsend : H.send k r = (false, k'))
    (h : H.Obliging ifs → (H.send k r).1 = true) : ¬H.Obliging ifs := by
  intro hobl
  have := h hobl
  rw [hsend] at this
  cases this

theorem triple_work (hH : H.Lawful) (w : Work)
    (hE : ∀ k, H.trees k = t → ¬H.Obliging ifs → E k) :
    Triple (fun k => H.trees k = t) (H.must (.work w)) (fun _ k => H.trees k = t) E :=
  triple_must (fun k k' hk hsend => by rw [hH.worked hsend, hk])
    fun k k' hk hsend => hE k' (by rw [hH.refused hsend, hk])
      (not_obliging hsend fun hobl => hobl.work k w)

theorem triple_getInterface (hH : H.Lawful)
    (hname : name = ifs.lanInterface ∨ name = ifs.wanInterface)
    (hE : ∀ k, H.trees k = t → ¬H.Obliging ifs → E k) :
    Triple (fun k => H.trees k = t) (H.getInterface name)
      (fun i k => i = H.index name ∧ H.trees k = t) E := by
  intro k hk
  rw [exec_getInterface]
  cases hi : H.interfaceByName k name with
  | some i => exact ⟨hH.interface hi, hk⟩
  | none =>
      refine hE k hk fun hobl => ?_
      have := hobl.interface k name hname
      rw [hi] at this
      cases this

theorem triple_getFilters (hH : H.Lawful) (hlink : H.Serves ifs link) (parent : Handle)
    (hE : ∀ k, H.trees k = t → ¬H.Obliging ifs → E k) :
    Triple (fun k => H.trees k = t) (H.getFilters link parent)
      (fun fs k => (fs : Multiset TcObject)
          = (t (link, parent.hook)).filter (fun o => o.isFilter = true ∧ o.parent = parent)
        ∧ H.trees k = t) E := by
  intro k hk
  rw [exec_getFilters]
  cases hfs : H.listFilters k link parent with
  | some fs => exact ⟨hk ▸ hH.listFilters hfs, hk⟩
  | none =>
      refine hE k hk fun hobl => ?_
      have := hobl.listFilters k link parent hlink
      rw [hfs] at this
      cases this

theorem triple_add (hH : H.Lawful) (hlink : H.Serves ifs link)
    (hE : ∀ k, H.trees k = t → (Fits (t (link, o.hook)) o → ¬H.Obliging ifs) → E k) :
    Triple (fun k => H.trees k = t) (H.must (.add link o))
      (fun _ k => H.trees k = Function.update t (link, o.hook) (o ::ₘ t (link, o.hook))) E :=
  triple_must (fun k k' hk hsend => by rw [hH.add hsend, hk])
    fun k k' hk hsend => hE k' (by rw [hH.refused hsend, hk]) fun hfits =>
      not_obliging hsend fun hobl => hobl.add k link o hlink (hk ▸ hfits)

end Host

/-! ## A host that keeps a table

The laws are satisfiable: a table of objects, with what the kernel checks
before it adds one. -/

def placed (objs : List (Int × TcObject)) (place : Place) : List TcObject :=
  (objs.filter fun e => (e.1, e.2.hook) = place).map (·.2)

/-- Qdiscs and classes of a place have different handles. -/
structure ObjectTable where
  objs : List (Int × TcObject)
  nodup : ((objs.filter (!·.2.isFilter)).map fun e => (e.1, e.2.hook, e.2.handle)).Nodup

namespace ObjectTable

def trees (T : ObjectTable) (place : Place) : List TcObject := placed T.objs place

theorem nodup_of_sublist {T : ObjectTable} {objs : List (Int × TcObject)}
    (h : objs.Sublist T.objs) :
    ((objs.filter (!·.2.isFilter)).map fun e => (e.1, e.2.hook, e.2.handle)).Nodup :=
  T.nodup.sublist ((h.filter _).map _)

/-- The object is admitted among those of its place. -/
def Admits (T : ObjectTable) (link : Int) (o : TcObject) : Prop :=
  (o.IsTop → T.trees (link, o.hook) = [])
    ∧ (o.isFilter = false → ∀ q ∈ T.trees (link, o.hook), q.isFilter = false →
        q.handle ≠ o.handle)

instance (T : ObjectTable) (link : Int) (o : TcObject) : Decidable (T.Admits link o) :=
  inferInstanceAs (Decidable (_ ∧ _))

theorem mem_trees {T : ObjectTable} {place : Place} {o : TcObject} :
    o ∈ T.trees place ↔ ∃ e ∈ T.objs, (e.1, e.2.hook) = place ∧ e.2 = o := by
  simp [trees, placed, and_assoc]

theorem nodup_add {T : ObjectTable} {link : Int} {o : TcObject} (h : T.Admits link o) :
    ((((link, o) :: T.objs).filter (!·.2.isFilter)).map
      fun e => (e.1, e.2.hook, e.2.handle)).Nodup := by
  cases hfilter : o.isFilter with
  | true => simpa [List.filter_cons, hfilter] using T.nodup
  | false =>
      rw [List.filter_cons_of_pos (by simp [hfilter]), List.map_cons, List.nodup_cons]
      refine ⟨fun hmem => ?_, T.nodup⟩
      obtain ⟨e, he, hkey⟩ := List.mem_map.mp hmem
      obtain ⟨hlink, hhook, hhandle⟩ : e.1 = link ∧ e.2.hook = o.hook ∧ e.2.handle = o.handle := by
        simpa using hkey
      have hnot : e.2.isFilter = false := by simpa using (List.mem_filter.mp he).2
      have hmem : e.2 ∈ T.trees (link, o.hook) :=
        mem_trees.mpr ⟨e, (List.mem_filter.mp he).1, by rw [hlink, hhook], rfl⟩
      exact h.2 hfilter e.2 hmem hnot hhandle

def qdiscDel (T : ObjectTable) (place : Place) : ObjectTable :=
  ⟨T.objs.filter fun e => (e.1, e.2.hook) ≠ place, nodup_of_sublist List.filter_sublist⟩

def filterDelete (T : ObjectTable) (e : Int × TcObject) : ObjectTable :=
  ⟨T.objs.erase e, nodup_of_sublist List.erase_sublist⟩

def send (T : ObjectTable) : Request → Bool × ObjectTable
  | .qdiscDel link parent =>
      if T.trees (link, parent.hook) = [] then (false, T)
      else (true, T.qdiscDel (link, parent.hook))
  | .add link o =>
      if h : T.Admits link o then (true, ⟨(link, o) :: T.objs, T.nodup_add h⟩) else (false, T)
  | .filterDelete link o =>
      if (link, o) ∈ T.objs then (true, T.filterDelete (link, o)) else (false, T)
  | .work _ => (true, T)

end ObjectTable

/-- The interfaces `lan0` and `eth0`. -/
def tableIndex (name : Text) : Int := if name = "lan0".toList then 2 else 3

def tableHost : Host ObjectTable where
  send := ObjectTable.send
  interfaceByName _ name :=
    if name = "lan0".toList ∨ name = "eth0".toList then some (tableIndex name) else none
  listFilters T link parent :=
    some ((T.trees (link, parent.hook)).filter fun o => o.isFilter = true ∧ o.parent = parent)
  trees T place := (T.trees place : List TcObject)
  index := tableIndex

section Placed

variable {objs : List (Int × TcObject)} {place : Place} {link : Int} {o : TcObject}

theorem placed_cons_self :
    placed ((link, o) :: objs) (link, o.hook) = o :: placed objs (link, o.hook) := by
  rw [placed, List.filter_cons_of_pos (by simp)]
  rfl

theorem placed_cons_of_ne (h : place ≠ (link, o.hook)) :
    placed ((link, o) :: objs) place = placed objs place := by
  rw [placed, List.filter_cons_of_neg (by simpa using Ne.symm h)]
  rfl

theorem placed_filter_self : placed (objs.filter fun e => (e.1, e.2.hook) ≠ place) place = [] := by
  rw [placed, List.map_eq_nil_iff, List.filter_eq_nil_iff]
  intro e he
  simpa using (List.mem_filter.mp he).2

theorem placed_filter_of_ne {p : Place} (h : p ≠ place) :
    placed (objs.filter fun e => (e.1, e.2.hook) ≠ place) p = placed objs p := by
  rw [placed, List.filter_filter, placed]
  refine congrArg _ (List.filter_congr fun e _ => ?_)
  by_cases he : (e.1, e.2.hook) = p
  · simp [he, h]
  · simp [he]

theorem placed_perm {objs' : List (Int × TcObject)} (h : objs.Perm objs') :
    (placed objs place).Perm (placed objs' place) :=
  (h.filter _).map _

end Placed

namespace ObjectTable

variable {T : ObjectTable} {place : Place} {link : Int} {o : TcObject}

theorem trees_qdiscDel (T : ObjectTable) (place : Place) :
    tableHost.trees (T.qdiscDel place) = Function.update (tableHost.trees T) place 0 := by
  funext p
  by_cases hp : p = place
  · subst hp
    rw [Function.update_self]
    exact congrArg _ placed_filter_self
  · rw [Function.update_of_ne hp]
    exact congrArg _ (placed_filter_of_ne hp)

theorem trees_add (h : T.Admits link o) :
    tableHost.trees ⟨(link, o) :: T.objs, T.nodup_add h⟩
      = Function.update (tableHost.trees T) (link, o.hook)
        (o ::ₘ tableHost.trees T (link, o.hook)) := by
  funext p
  by_cases hp : p = (link, o.hook)
  · subst hp
    rw [Function.update_self]
    exact congrArg _ placed_cons_self
  · rw [Function.update_of_ne hp]
    exact congrArg _ (placed_cons_of_ne hp)

theorem trees_filterDelete (h : (link, o) ∈ T.objs) :
    tableHost.trees (T.filterDelete (link, o)) = Function.update (tableHost.trees T) (link, o.hook)
      ((tableHost.trees T (link, o.hook)).erase o) := by
  funext p
  have hperm : tableHost.trees T p
      = (placed ((link, o) :: T.objs.erase (link, o)) p : List TcObject) :=
    Multiset.coe_eq_coe.mpr (placed_perm (List.perm_cons_erase h))
  by_cases hp : p = (link, o.hook)
  · subst hp
    rw [Function.update_self, hperm, placed_cons_self, ← Multiset.cons_coe,
      Multiset.erase_cons_head]
    rfl
  · rw [Function.update_of_ne hp, hperm, placed_cons_of_ne hp]
    rfl

end ObjectTable

theorem lawful_tableHost : tableHost.Lawful where
  refused {T r T'} h := by
    change T.send r = _ at h
    cases r with
    | qdiscDel link parent =>
        rw [ObjectTable.send] at h
        split at h
        · rw [(Prod.mk.inj h).2]
        · cases (Prod.mk.inj h).1
    | add link o =>
        rw [ObjectTable.send] at h
        split at h
        · cases (Prod.mk.inj h).1
        · rw [(Prod.mk.inj h).2]
    | filterDelete link o =>
        rw [ObjectTable.send] at h
        split at h
        · cases (Prod.mk.inj h).1
        · rw [(Prod.mk.inj h).2]
    | work w => cases (Prod.mk.inj h).1
  worked h := by rw [(Prod.mk.inj h).2]
  qdiscDel {T link parent T'} h := by
    change T.send (.qdiscDel link parent) = (true, T') at h
    rw [ObjectTable.send] at h
    split at h
    · cases (Prod.mk.inj h).1
    · rw [← (Prod.mk.inj h).2, ObjectTable.trees_qdiscDel]
  add {T link o T'} h := by
    change T.send (.add link o) = (true, T') at h
    rw [ObjectTable.send] at h
    split at h
    · rename_i hadmits
      rw [← (Prod.mk.inj h).2, ObjectTable.trees_add hadmits]
    · cases (Prod.mk.inj h).1
  occupied {T link o T'} h htop := by
    change T.send (.add link o) = (true, T') at h
    rw [ObjectTable.send] at h
    split at h
    · rename_i hadmits
      exact (Multiset.coe_eq_zero _).mpr (hadmits.1 htop)
    · cases (Prod.mk.inj h).1
  filterDelete {T link o T'} h := by
    change T.send (.filterDelete link o) = (true, T') at h
    rw [ObjectTable.send] at h
    split at h
    · rename_i hmem
      rw [← (Prod.mk.inj h).2, ObjectTable.trees_filterDelete hmem]
    · cases (Prod.mk.inj h).1
  listFilters {T link parent fs} h := by
    rw [← Option.some.inj h]
    show _ = Multiset.filter _ ((T.trees (link, parent.hook) : List TcObject) : Multiset TcObject)
    rw [Multiset.filter_coe]
  interface {T name i} h := by
    obtain ⟨-, h⟩ := (Option.ite_none_right_eq_some ..).mp h
    exact (Option.some.inj h).symm

def tableInterfaces : Interfaces := ⟨"eth0".toList, "lan0".toList⟩

theorem obliging_tableHost : tableHost.Obliging tableInterfaces where
  work _ _ := rfl
  qdiscDel T link parent _ hsome := by
    show (T.send _).1 = true
    rw [ObjectTable.send, if_neg fun h => hsome ((Multiset.coe_eq_zero _).mpr h)]
  add T link o _ hfits := by
    show (T.send _).1 = true
    have hadmits : T.Admits link o :=
      ⟨fun htop => (Multiset.coe_eq_zero _).mp (hfits.top htop), hfits.fresh⟩
    rw [ObjectTable.send, dif_pos hadmits]
  interface T name hname := by
    rcases hname with rfl | rfl
    · rfl
    · rfl
  listFilters _ _ _ _ := rfl

end Nethadone
