import Fl2440.Yaffs.Tnode

/-! What the operations on the tree of a file change: the chunks that are found in it, and the number
of tnodes in use. -/
namespace Fl2440.Yaffs

variable {g : TnodeLayout} {l id other : Nat} {pool pool' : TnodePool} {passed : Option (Leaf g)} {leaf old : Leaf g}

/-- A tree takes the place of another one, and `spare` tnodes have gone into it from elsewhere. -/
def Balanced (spare : Int) (l : Nat) (before : Option (Tnode g l)) (pool : TnodePool) (after : Option (Tnode g l))
    (pool' : TnodePool) : Prop :=
  pool'.nTnodes - countTnodes l after + spare = pool.nTnodes - countTnodes l before

theorem Balanced.setInternal {spare : Int} {tn : Tnode g (l + 1)} {x : Fin 8} {child : Option (Tnode g l)}
    (h : Balanced spare l (tn.internal x) pool child pool') :
    Balanced spare (l + 1) (some tn) pool (some (tn.setInternal x child)) pool' := by
  have := countTnodes_setInternal tn x child
  unfold Balanced at h ⊢
  omega

theorem Tnode.setInternal_self (tn : Tnode g (l + 1)) (x : Fin 8) : tn.setInternal x (tn.internal x) = tn :=
  funext fun y => by
    by_cases h : y = x
    · subst h
      exact if_pos rfl
    · exact if_neg h

/-! ### Writing through a pointer -/

theorem leafAt_setTnode0 (leaf : Leaf g) : ∀ {l : Nat} {tn : Tnode g l}, traverse id l tn = some old → ∀ other,
    leafAt l (some (setTnode0 id leaf l tn)) other = if SameLeaf l other id then leaf else leafAt l (some tn) other := by
  intro l
  induction l with
  | zero => exact fun _ other => (if_pos (sameLeaf_zero other id)).symm
  | succ l ih =>
      intro tn h other
      obtain ⟨child, hchild, hrest⟩ := Option.bind_eq_some_iff.mp h
      rw [setTnode0, hchild, Option.map_some, leafAt_setInternal]
      by_cases hslot : slot l other = slot l id
      · rw [if_pos hslot, ih hrest, leafAt_succ, hslot, hchild]
        exact if_congr (by rw [sameLeaf_succ, and_iff_right hslot]) rfl rfl
      · rw [if_neg hslot, if_neg fun h => hslot (sameLeaf_succ.mp h).1]

theorem countTnodes_setTnode0 (leaf : Leaf g) : ∀ {l : Nat} {tn : Tnode g l}, traverse id l tn = some old →
    countTnodes l (some (setTnode0 id leaf l tn)) = countTnodes l (some tn) := by
  intro l
  induction l with
  | zero => exact fun _ => rfl
  | succ l ih =>
      intro tn h
      obtain ⟨child, hchild, hrest⟩ := Option.bind_eq_some_iff.mp h
      have hcount := countTnodes_setInternal tn (slot l id) (some (setTnode0 id leaf l child))
      rw [ih hrest, hchild] at hcount
      rw [setTnode0, hchild, Option.map_some]
      exact Nat.add_right_cancel hcount

theorem spine_setTnode0 (leaf : Leaf g) : ∀ {l : Nat} {tn : Tnode g l}, Spine l (some tn) →
    Spine l (some (setTnode0 id leaf l tn)) := by
  intro l
  induction l with
  | zero => exact fun _ => rfl
  | succ l ih =>
      intro tn h
      refine spine_setInternal tn _ h fun hchild => ?_
      cases hc : tn.internal (slot l id) with
      | none => rw [hc] at hchild; cases l <;> simp [Spine] at hchild
      | some child => exact ih (hc ▸ hchild)

theorem traverse_congr_sameLeaf {a b : Nat} : ∀ {l : Nat} (tn : Tnode g l), SameLeaf l a b →
    traverse a l tn = traverse b l tn := by
  intro l
  induction l with
  | zero => exact fun _ _ => rfl
  | succ l ih =>
      intro tn h
      obtain ⟨hslot, hlow⟩ := sameLeaf_succ.mp h
      rw [traverse, traverse, hslot]
      exact congrArg _ (funext fun child => ih child hlow)

theorem leafAt_congr (tn : Option (Tnode g l)) {a b : Nat} (h : SameLeaf l a b) : leafAt l tn a = leafAt l tn b := by
  cases tn with
  | none => rfl
  | some tn => rw [leafAt, leafAt, Option.bind_some, Option.bind_some, traverse_congr_sameLeaf tn h]

/-! ### Adding tnodes -/

structure Obtained (l : Nat) (before : Option (Tnode g l)) (pool : TnodePool) (child : Tnode g l) (pool' : TnodePool) :
    Prop where
  leaf : ∀ chunkId, leafAt l (some child) chunkId = leafAt l before chunkId
  balanced : Balanced 0 l before pool (some child) pool'
  spine : Spine l before → Spine l (some child)
  avail : pool.avail ≤ pool'.avail + 1

theorem not_spine_none : ¬ Spine l (none : Option (Tnode g l)) := by
  cases l <;> simp [Spine]

theorem obtained {before : Option (Tnode g l)} {child : Tnode g l}
    (h : (before.elim (yaffsGetTnode l pool) fun child => some (child, pool)) = some (child, pool')) :
    Obtained l before pool child pool' := by
  cases before with
  | some tn =>
      cases h
      exact ⟨fun _ => rfl, Int.add_zero _, fun h => h, Nat.le_succ _⟩
  | none =>
      rw [Option.elim_none, yaffsGetTnode] at h
      split_ifs at h
      cases h
      refine ⟨leafAt_zero_tnode l, ?_, fun h => absurd h not_spine_none, by simp only; omega⟩
      have hnone : countTnodes l (none : Option (Tnode g l)) = 0 := by cases l <;> rfl
      simp only [Balanced, countTnodes_zero_tnode, hnone]
      omega

theorem not_obtained {before : Option (Tnode g l)}
    (h : (before.elim (yaffsGetTnode l pool) fun child => some (child, pool)) = none) : pool.avail = 0 := by
  cases before with
  | some tn => cases h
  | none =>
      rw [Option.elim_none, yaffsGetTnode] at h
      split_ifs at h with hzero
      exact hzero

structure Walked (id l : Nat) (passed : Option (Leaf g)) (tn : Tnode g l) (pool : TnodePool) (found : Option (Leaf g))
    (tn' : Tnode g l) (pool' : TnodePool) : Prop where
  reached : ∀ leaf, found = some leaf →
    traverse id l tn' = some leaf ∧ leaf = passed.getD (leafAt l (some tn) id)
  others : ∀ other, found = none ∨ ¬ SameLeaf l other id → leafAt l (some tn') other = leafAt l (some tn) other
  balanced : Balanced (if passed.isSome ∧ found.isSome then 1 else 0) l (some tn) pool (some tn') pool'
  spine : Spine l (some tn) → Spine l (some tn')
  enough : l ≤ pool.avail → found.isSome
  avail : pool.avail ≤ pool'.avail + l

namespace Walked

theorem failed {tn : Tnode g l} (h : pool.avail < l) : Walked id l passed tn pool none tn pool where
  reached _ hfound := nomatch hfound
  others _ _ := rfl
  balanced := by
    rw [if_neg fun h => Bool.false_ne_true h.2]
    exact Int.add_zero _
  spine h := h
  enough hle := absurd h (Nat.not_lt.mpr hle)
  avail := Nat.le_add_right _ _

theorem step {tn : Tnode g (l + 1)} {child child' : Tnode g l} {pool₁ : TnodePool} {found : Option (Leaf g)}
    (hchild : Obtained l (tn.internal (slot l id)) pool child pool₁)
    (h : Walked id l passed child pool₁ found child' pool') :
    Walked id (l + 1) passed tn pool found (tn.setInternal (slot l id) (some child')) pool' where
  reached := by
    intro leaf hfound
    obtain ⟨hreached, hleaf⟩ := h.reached leaf hfound
    refine ⟨?_, ?_⟩
    · rw [traverse, Tnode.internal_setInternal, if_pos rfl]
      exact hreached
    · rw [hleaf, hchild.leaf, leafAt_succ]
  others := by
    intro other hother
    rw [leafAt_setInternal]
    split_ifs with hslot
    · rw [h.others other (hother.imp_right fun hne hsame => hne (sameLeaf_succ.mpr ⟨hslot, hsame⟩)), hchild.leaf,
        leafAt_succ, hslot]
    · rfl
  balanced := by
    have hfirst := hchild.balanced
    have hrest := h.balanced
    refine Balanced.setInternal ?_
    unfold Balanced at hfirst hrest ⊢
    omega
  spine hspine := spine_setInternal tn _ hspine fun hold => h.spine (hchild.spine hold)
  enough hle := h.enough (by have := hchild.avail; omega)
  avail := by
    have := hchild.avail
    have := h.avail
    omega

end Walked

theorem addTraverse_zero_none (id : Nat) (tn : Tnode g 1) (pool : TnodePool) :
    addTraverse id none 0 tn pool =
      match (tn.internal (slot 0 id)).elim (yaffsGetTnode 0 pool) fun leaf => some (leaf, pool) with
      | none => (none, tn, pool)
      | some (leaf, pool) => (some leaf.map, tn.setInternal (slot 0 id) (some leaf), pool) := by
  rw [addTraverse]
  cases hchild : tn.internal (slot 0 id) with
  | none => rfl
  | some leaf =>
      have hself := Tnode.setInternal_self tn (slot 0 id)
      rw [hchild] at hself
      simp only [Option.elim_some, hself]

theorem walked_passed (id : Nat) (leaf : Leaf g) (tn : Tnode g 1) (pool : TnodePool) :
    Walked id 1 (some leaf) tn pool (some leaf) (tn.setInternal (slot 0 id) (some (Tnode.ofMap leaf)))
      (if (tn.internal (slot 0 id)).isSome then yaffsFreeTnode pool else pool) where
  reached := by
    intro found hfound
    cases hfound
    refine ⟨?_, rfl⟩
    rw [traverse, Tnode.internal_setInternal, if_pos rfl]
    rfl
  others := by
    intro other hother
    have hne := hother.resolve_left nofun
    rw [leafAt_setInternal, if_neg fun hslot => hne (sameLeaf_succ.mpr ⟨hslot, sameLeaf_zero ..⟩)]
  balanced := by
    refine Balanced.setInternal ?_
    have hnew : countTnodes 0 (some (Tnode.ofMap leaf)) = 1 := rfl
    cases tn.internal (slot 0 id) with
    | none =>
        have hold : countTnodes 0 (none : Option (Tnode g 0)) = 0 := rfl
        rw [Balanced, hnew, hold]
        show pool.nTnodes - 1 + 1 = pool.nTnodes - 0
        omega
    | some tn =>
        have hold : countTnodes 0 (some tn : Option (Tnode g 0)) = 1 := rfl
        rw [Balanced, hnew, hold]
        exact Int.sub_add_cancel _ _
  spine hspine := spine_setInternal tn _ hspine fun _ => rfl
  enough _ := rfl
  avail := by
    split_ifs
    · exact Nat.le_add_right_of_le (Nat.le_succ _)
    · exact Nat.le_add_right _ _

theorem addTraverse_spec (id : Nat) (passed : Option (Leaf g)) : ∀ (l : Nat) (tn : Tnode g (l + 1)) (pool : TnodePool),
    Walked id (l + 1) passed tn pool (addTraverse id passed l tn pool).1 (addTraverse id passed l tn pool).2.1
      (addTraverse id passed l tn pool).2.2 := by
  intro l
  induction l with
  | zero =>
      intro tn pool
      cases passed with
      | some leaf => exact walked_passed id leaf tn pool
      | none =>
          rw [addTraverse_zero_none]
          cases h : (tn.internal (slot 0 id)).elim (yaffsGetTnode 0 pool) fun leaf => some (leaf, pool) with
          | none => exact Walked.failed (by rw [not_obtained h]; decide)
          | some r =>
              refine Walked.step (obtained h)
                ⟨fun leaf hfound => ?_, fun _ _ => rfl, Int.add_zero _, fun h => h, fun _ => rfl, Nat.le_refl _⟩
              cases hfound
              exact ⟨rfl, rfl⟩
  | succ l ih =>
      intro tn pool
      rw [addTraverse]
      cases h : (tn.internal (slot (l + 1) id)).elim (yaffsGetTnode (l + 1) pool) fun child => some (child, pool) with
      | none => exact Walked.failed (by rw [not_obtained h]; exact Nat.succ_pos _)
      | some r => exact (ih r.1 r.2).step (obtained h)

/-! ### Pruning -/

structure Pruned (l : Nat) (before : Option (Tnode g l)) (pool : TnodePool) (after : Option (Tnode g l))
    (pool' : TnodePool) : Prop where
  leaf : ∀ chunkId, leafAt l after chunkId = leafAt l before chunkId
  balanced : Balanced 0 l before pool after pool'
  avail : pool.avail ≤ pool'.avail

theorem Pruned.refl (tn : Option (Tnode g l)) (pool : TnodePool) : Pruned l tn pool tn pool :=
  ⟨fun _ => rfl, Int.add_zero _, Nat.le_refl _⟩

theorem Pruned.trans {a b c : Option (Tnode g l)} {p q r : TnodePool} (h : Pruned l a p b q) (h' : Pruned l b q c r) :
    Pruned l a p c r where
  leaf chunkId := (h'.leaf chunkId).trans (h.leaf chunkId)
  balanced := by
    have hfirst := h.balanced
    have hrest := h'.balanced
    unfold Balanced at hfirst hrest ⊢
    omega
  avail := Nat.le_trans h.avail h'.avail

theorem Pruned.setInternal {tn : Tnode g (l + 1)} {x : Fin 8} {child : Option (Tnode g l)}
    (h : Pruned l (tn.internal x) pool child pool') :
    Pruned (l + 1) (some tn) pool (some (tn.setInternal x child)) pool' where
  leaf chunkId := by
    rw [leafAt_setInternal]
    split_ifs with hslot
    · rw [h.leaf, leafAt_succ, hslot]
    · rfl
  balanced := h.balanced.setInternal
  avail := h.avail

theorem Pruned.free {tn : Tnode g (l + 1)} (h : ∀ x, tn.internal x = none) :
    Pruned (l + 1) (some tn) pool none (yaffsFreeTnode pool) where
  leaf chunkId := by
    rw [leafAt_succ, h]
    rfl
  balanced := by
    have hnone : countTnodes l (none : Option (Tnode g l)) = 0 := by cases l <;> rfl
    have hempty : countTnodes (l + 1) (none : Option (Tnode g (l + 1))) = 0 := rfl
    have hcount : countTnodes (l + 1) (some tn) = 1 := by
      rw [countTnodes_succ]
      simp only [h, hnone, Finset.sum_const_zero]
    rw [Balanced, hcount, hempty, yaffsFreeTnode]
    simp only
    omega
  avail := Nat.le_succ _

theorem leaf_eq_zero {map : Leaf g} (h : map.any (· != 0#32) = false) : map = Leaf.zero g := by
  refine Vector.ext fun i hi => ?_
  have hword := Vector.any_eq_false.mp h i hi
  rw [Leaf.zero, Vector.getElem_replicate]
  exact of_not_not fun hne => hword (bne_iff_ne.mpr hne)

theorem Pruned.free_leaf {tn : Tnode g 0} (h : tn.map.any (· != 0#32) = false) :
    Pruned 0 (some tn) pool none (yaffsFreeTnode pool) where
  leaf _ := (leaf_eq_zero h).symm
  balanced := by
    have hnew : countTnodes 0 (none : Option (Tnode g 0)) = 0 := rfl
    have hold : countTnodes 0 (some tn) = 1 := rfl
    rw [Balanced, hnew, hold, yaffsFreeTnode]
    simp only
    omega
  avail := Nat.le_succ _

theorem pruneWorker_spec : ∀ (l : Nat) (tn : Tnode g l) (del0 : Bool) (pool : TnodePool),
    Pruned l (some tn) pool (pruneWorker l tn del0 pool).1 (pruneWorker l tn del0 pool).2 ∧
      (del0 = false → Spine l (some tn) → Spine l (pruneWorker l tn del0 pool).1) := by
  intro l
  induction l with
  | zero =>
      intro tn del0 pool
      rw [pruneWorker]
      split_ifs with hfree
      · rw [Bool.and_eq_true, Bool.not_eq_true'] at hfree
        refine ⟨Pruned.free_leaf hfree.1, fun hdel0 => ?_⟩
        rw [hdel0] at hfree
        cases hfree.2
      · exact ⟨Pruned.refl _ pool, fun _ h => h⟩
  | succ l ih =>
      intro tn del0 pool
      rw [pruneWorker]
      have hloop := List.foldlRecOn (motive := fun r : Tnode g (l + 1) × TnodePool =>
        Pruned (l + 1) (some tn) pool (some r.1) r.2 ∧
          (del0 = false → Spine (l + 1) (some tn) → Spine (l + 1) (some r.1)))
        (List.finRange 8) (fun r i => (r.1.internal i).elim r fun child =>
          let c := pruneWorker l child (if i = 0 then del0 else true) r.2
          (r.1.setInternal i c.1, c.2)) (b := (tn, pool)) ⟨Pruned.refl _ pool, fun _ h => h⟩ ?_
      · generalize (List.finRange 8).foldl _ (tn, pool) = r at hloop ⊢
        obtain ⟨hpruned, hspine⟩ := hloop
        split_ifs with hfree
        · rw [Bool.and_eq_true, Bool.not_eq_true', List.any_eq_false] at hfree
          refine ⟨hpruned.trans (Pruned.free fun x => ?_), fun hdel0 => ?_⟩
          · exact Option.not_isSome_iff_eq_none.mp (hfree.1 x (List.mem_finRange x))
          · rw [hdel0] at hfree
            cases hfree.2
        · exact ⟨hpruned, hspine⟩
      · rintro ⟨tn', pool'⟩ ⟨hpruned, hspine⟩ i -
        simp only
        cases hchild : tn'.internal i with
        | none => exact ⟨hpruned, hspine⟩
        | some child =>
            obtain ⟨hstep, hleft⟩ := ih child (if i = 0 then del0 else true) pool'
            rw [← hchild] at hstep hleft
            refine ⟨hpruned.trans hstep.setInternal, fun hdel0 hold => ?_⟩
            rw [Option.elim_some]
            by_cases hi : i = 0
            · refine spine_setInternal tn' i (hspine hdel0 hold) (hleft ?_)
              rw [if_pos hi, hdel0]
            · obtain ⟨tn'', heq, hzero⟩ := hspine hdel0 hold
              obtain rfl := Option.some.inj heq
              refine ⟨_, rfl, ?_⟩
              rw [Tnode.internal_setInternal, if_neg (Ne.symm hi)]
              exact hzero

/-! ### Files -/

theorem requiredDepth_le (i L : Nat) : requiredDepth i ≤ L ↔ i < 8 ^ L := by
  induction L generalizing i with
  | zero =>
      rw [requiredDepth]
      split_ifs with h
      · exact iff_of_true (Nat.le_refl 0) (by rw [h]; decide)
      · exact iff_of_false (by omega) (by rw [Nat.pow_zero]; omega)
  | succ L ih =>
      rw [requiredDepth]
      split_ifs with h
      · exact iff_of_true (Nat.zero_le _) (by rw [h]; exact Nat.pow_pos (by decide))
      · rw [Nat.add_le_add_iff_right, ih, Nat.shiftRight_eq_div_pow, Nat.div_lt_iff_lt_mul (by decide)]
        rfl

theorem slot_eq_zero_iff (h : id / 16 < 8 ^ (l + 1)) : slot l id = 0 ↔ id / 16 < 8 ^ l := by
  have hpos : 0 < 8 ^ l := Nat.pow_pos (by decide)
  have hdigit : id / 16 / 8 ^ l < 8 := Nat.div_lt_of_lt_mul (by rwa [Nat.pow_succ] at h)
  rw [slot_eq, Fin.ext_iff, Fin.val_ofNat, Nat.mod_eq_of_lt hdigit, Fin.val_zero, Nat.div_eq_zero_iff_lt hpos]

namespace FileVar

/-- The tnode of level 0 for a chunk of the file, and zeros where there is none. -/
def tnode0 (file : FileVar g) (chunkId : Nat) : Leaf g :=
  if chunkId / 16 < 8 ^ file.topLevel then leafAt file.topLevel file.top chunkId else Leaf.zero g

def tnodes (file : FileVar g) : Nat := countTnodes file.topLevel file.top

/-- The tree of a file always has a top, and is no taller than the numbers of chunks need. -/
structure Sound (file : FileVar g) : Prop where
  level_le : file.topLevel ≤ YAFFS_TNODES_MAX_LEVEL
  spine : Spine file.topLevel file.top

variable {file : FileVar g}

theorem tnode0_congr (h : other / 16 = id / 16) : file.tnode0 other = file.tnode0 id := by
  rw [tnode0, tnode0, h, leafAt_congr file.top (show SameLeaf _ other id by rw [SameLeaf, h])]

theorem raised_tnode0 (file : FileVar g) (chunkId : Nat) :
    tnode0 ⟨file.topLevel + 1, some ((Tnode.zero g (file.topLevel + 1)).setInternal 0 file.top)⟩ chunkId =
      file.tnode0 chunkId := by
  rw [tnode0, tnode0]
  simp only
  by_cases h : chunkId / 16 < 8 ^ (file.topLevel + 1)
  · rw [if_pos h, leafAt_setInternal, leafAt_zero_tnode]
    exact if_congr (slot_eq_zero_iff h) rfl rfl
  · have hlow : ¬ chunkId / 16 < 8 ^ file.topLevel := fun hlt =>
      h (Nat.lt_of_lt_of_le hlt (Nat.pow_le_pow_right (by decide) (Nat.le_succ _)))
    rw [if_neg h, if_neg hlow]

theorem raised_tnodes (file : FileVar g) :
    tnodes ⟨file.topLevel + 1, some ((Tnode.zero g (file.topLevel + 1)).setInternal 0 file.top)⟩ = file.tnodes + 1 := by
  have hcount := countTnodes_setInternal (Tnode.zero g (file.topLevel + 1)) 0 file.top
  rw [countTnodes_zero_tnode, Tnode.internal_zero] at hcount
  have hnone : countTnodes file.topLevel (none : Option (Tnode g file.topLevel)) = 0 := by
    cases file.topLevel <;> rfl
  rw [hnone] at hcount
  simp only [tnodes]
  omega

theorem spine_raised (h : Spine file.topLevel file.top) :
    Spine (file.topLevel + 1) (some ((Tnode.zero g (file.topLevel + 1)).setInternal 0 file.top)) := by
  refine ⟨_, rfl, ?_⟩
  rw [Tnode.internal_setInternal, if_pos rfl]
  exact h

structure Raised (levels : Nat) (file : FileVar g) (pool : TnodePool) (ok : Bool) (file' : FileVar g)
    (pool' : TnodePool) : Prop where
  level : ok = true → file'.topLevel = file.topLevel + levels
  level_le : file'.topLevel ≤ file.topLevel + levels
  tnode0 : ∀ chunkId, file'.tnode0 chunkId = file.tnode0 chunkId
  balanced : pool'.nTnodes - file'.tnodes = pool.nTnodes - file.tnodes
  spine : Spine file.topLevel file.top → Spine file'.topLevel file'.top
  avail : pool.avail ≤ pool'.avail + levels
  enough : levels ≤ pool.avail → ok = true

theorem raise_spec (levels : Nat) : ∀ (file : FileVar g) (pool : TnodePool),
    Raised levels file pool (raise file pool levels).1 (raise file pool levels).2.1 (raise file pool levels).2.2 := by
  induction levels with
  | zero =>
      intro file pool
      exact ⟨fun _ => rfl, Nat.le_refl _, fun _ => rfl, rfl, fun h => h, Nat.le_refl _, fun _ => rfl⟩
  | succ levels ih =>
      intro file pool
      by_cases havail : pool.avail = 0
      · have hraise : raise file pool (levels + 1) = (false, file, pool) := by
          rw [raise, yaffsGetTnode, if_pos havail]
        rw [hraise]
        exact ⟨nofun, Nat.le_add_right _ _, fun _ => rfl, rfl, fun h => h, Nat.le_add_right _ _, fun h => by omega⟩
      · have hraise : raise file pool (levels + 1) =
            raise ⟨file.topLevel + 1, some ((Tnode.zero g (file.topLevel + 1)).setInternal 0 file.top)⟩
              ⟨pool.nTnodes + 1, pool.avail - 1⟩ levels := by
          rw [raise, yaffsGetTnode, if_neg havail]
        have hrest := ih ⟨file.topLevel + 1, some ((Tnode.zero g (file.topLevel + 1)).setInternal 0 file.top)⟩
          ⟨pool.nTnodes + 1, pool.avail - 1⟩
        have htnodes := raised_tnodes file
        rw [hraise]
        refine ⟨fun h => ?_, ?_, fun chunkId => ?_, ?_, fun h => hrest.spine (spine_raised h), ?_,
          fun h => hrest.enough (Nat.le_sub_one_of_lt h)⟩
        · rw [hrest.level h]
          simp only
          omega
        · have := hrest.level_le
          simp only at this
          omega
        · rw [hrest.tnode0, raised_tnode0]
        · rw [hrest.balanced, htnodes]
          simp only
          omega
        · have := hrest.avail
          simp only at this
          omega

theorem find_eq (h : file.topLevel ≤ YAFFS_TNODES_MAX_LEVEL) (hid : id ≤ YAFFS_MAX_CHUNK_ID) :
    yaffsFindTnode0 file id =
      if id / 16 < 8 ^ file.topLevel then file.top.bind (traverse id file.topLevel) else none := by
  have hdepth := requiredDepth_le (id >>> 4) file.topLevel
  rw [Nat.shiftRight_eq_div_pow] at hdepth
  rw [yaffsFindTnode0, if_neg (Nat.not_lt.mpr h), if_neg (Nat.not_lt.mpr hid), Nat.shiftRight_eq_div_pow]
  by_cases hlow : id / 16 < 8 ^ file.topLevel
  · rw [if_neg (Nat.not_lt.mpr (hdepth.mpr hlow)), if_pos hlow]
  · rw [if_pos (Nat.lt_of_not_le fun hle => hlow (hdepth.mp hle)), if_neg hlow]

theorem find_getD (h : file.topLevel ≤ YAFFS_TNODES_MAX_LEVEL) (hid : id ≤ YAFFS_MAX_CHUNK_ID) :
    (yaffsFindTnode0 file id).getD (Leaf.zero g) = file.tnode0 id := by
  rw [find_eq h hid, tnode0]
  split_ifs <;> rfl

structure Extended (need id : Nat) (passed : Option (Leaf g)) (file : FileVar g) (pool : TnodePool)
    (found : Option (Leaf g)) (file' : FileVar g) (pool' : TnodePool) : Prop where
  sound : file'.Sound
  reached : ∀ leaf, found = some leaf →
    yaffsFindTnode0 file' id = some leaf ∧ leaf = passed.getD (file.tnode0 id)
  others : ∀ other, found = none ∨ other / 16 ≠ id / 16 → file'.tnode0 other = file.tnode0 other
  balanced : pool'.nTnodes - file'.tnodes + (if passed.isSome ∧ found.isSome then 1 else 0) =
    pool.nTnodes - file.tnodes
  enough : need ≤ pool.avail → found.isSome
  avail : pool.avail ≤ pool'.avail + need

theorem div_of_le_max (hid : id ≤ YAFFS_MAX_CHUNK_ID) : id / 16 < 8 ^ YAFFS_TNODES_MAX_LEVEL := by
  rw [YAFFS_MAX_CHUNK_ID] at hid
  rw [YAFFS_TNODES_MAX_LEVEL]
  omega

theorem extended_of_walked {tn tn' : Tnode g l} {found : Option (Leaf g)} (hl : l ≤ YAFFS_TNODES_MAX_LEVEL)
    (hid : id ≤ YAFFS_MAX_CHUNK_ID) (hlow : id / 16 < 8 ^ l) (hspine : Spine l (some tn))
    (h : Walked id l passed tn pool found tn' pool') :
    Extended YAFFS_TNODES_MAX_LEVEL id passed ⟨l, some tn⟩ pool found ⟨l, some tn'⟩ pool' where
  sound := ⟨hl, h.spine hspine⟩
  reached := by
    intro leaf hfound
    obtain ⟨hreached, hleaf⟩ := h.reached leaf hfound
    refine ⟨?_, ?_⟩
    · rw [find_eq hl hid, if_pos hlow]
      exact hreached
    · rw [hleaf, tnode0, if_pos hlow]
  others := by
    intro other hother
    rw [tnode0, tnode0]
    simp only
    split_ifs with hlow'
    · refine h.others other (hother.imp_right fun hne hsame => hne ?_)
      rwa [SameLeaf, Nat.mod_eq_of_lt hlow, Nat.mod_eq_of_lt hlow'] at hsame
    · rfl
  balanced := h.balanced
  enough hle := h.enough (by omega)
  avail := by
    have := h.avail
    omega

theorem extended_of_raised {levels : Nat} {file₁ file' : FileVar g} {pool₁ : TnodePool} {found : Option (Leaf g)}
    (hlevels : levels ≤ YAFFS_TNODES_MAX_LEVEL) (hraised : Raised levels file pool true file₁ pool₁)
    (h : Extended YAFFS_TNODES_MAX_LEVEL id passed file₁ pool₁ found file' pool') :
    Extended (2 * YAFFS_TNODES_MAX_LEVEL) id passed file pool found file' pool' where
  sound := h.sound
  reached := by
    intro leaf hfound
    rw [← hraised.tnode0]
    exact h.reached leaf hfound
  others other hother := (h.others other hother).trans (hraised.tnode0 other)
  balanced := h.balanced.trans hraised.balanced
  enough hle := h.enough (by have := hraised.avail; omega)
  avail := by
    have := hraised.avail
    have := h.avail
    omega

theorem walked_top (id : Nat) (tn : Tnode g 0) (pool : TnodePool) :
    Walked id 0 none tn pool (some tn.map) tn pool where
  reached leaf hfound := by
    cases hfound
    exact ⟨rfl, rfl⟩
  others _ _ := rfl
  balanced := Int.add_zero _
  spine h := h
  enough _ := rfl
  avail := Nat.le_refl _

theorem walked_top_passed (id : Nat) (leaf : Leaf g) (tn : Tnode g 0) (pool : TnodePool) :
    Walked id 0 (some leaf) tn pool (some leaf) (Tnode.ofMap leaf) (yaffsFreeTnode pool) where
  reached found hfound := by
    cases hfound
    exact ⟨rfl, rfl⟩
  others other hother := absurd (sameLeaf_zero other id) (hother.resolve_left nofun)
  balanced := by
    have hnew : countTnodes 0 (some (Tnode.ofMap leaf)) = 1 := rfl
    have hold : countTnodes 0 (some tn : Option (Tnode g 0)) = 1 := rfl
    show pool.nTnodes - 1 - (countTnodes 0 (some (Tnode.ofMap leaf)) : Int) + 1 = _
    rw [hnew, hold]
    omega
  spine _ := rfl
  enough _ := rfl
  avail := Nat.le_succ _

theorem addFind_spec (h : file.Sound) (hid : id ≤ YAFFS_MAX_CHUNK_ID) (pool : TnodePool) (passed : Option (Leaf g)) :
    Extended (2 * YAFFS_TNODES_MAX_LEVEL) id passed file pool (yaffsAddFindTnode0 file pool id passed).1
      (yaffsAddFindTnode0 file pool id passed).2.1 (yaffsAddFindTnode0 file pool id passed).2.2 := by
  have hdepth := requiredDepth_le (id >>> 4)
  simp only [Nat.shiftRight_eq_div_pow] at hdepth
  have hneeded := (hdepth YAFFS_TNODES_MAX_LEVEL).mpr (div_of_le_max hid)
  have hraised := raise_spec (requiredDepth (id / 2 ^ 4) - file.topLevel) file pool
  rw [yaffsAddFindTnode0, if_neg (Nat.not_lt.mpr h.level_le), if_neg (Nat.not_lt.mpr hid), Nat.shiftRight_eq_div_pow]
  generalize raise file pool (requiredDepth (id / 2 ^ 4) - file.topLevel) = r at hraised ⊢
  obtain ⟨ok, ⟨l, top⟩, pool₁⟩ := r
  have hspine := hraised.spine h.spine
  have hlevel := hraised.level_le
  have hmax := h.level_le
  cases ok with
  | false =>
      simp only at hlevel
      refine ⟨⟨?_, hspine⟩, fun _ hfound => ?_, fun other _ => hraised.tnode0 other, ?_, fun hle => ?_, ?_⟩
      · simp only
        omega
      · cases hfound
      · rw [if_neg fun h => Bool.false_ne_true h.2]
        exact (Int.add_zero _).trans hraised.balanced
      · cases hraised.enough (by omega)
      · have := hraised.avail
        simp only at this ⊢
        omega
  | true =>
      have hexact := hraised.level rfl
      simp only at hexact
      have hlow : id / 16 < 8 ^ l := (hdepth l).mp (by omega)
      cases top with
      | none => exact absurd hspine not_spine_none
      | some tn =>
          refine extended_of_raised (by omega) hraised ?_
          cases l with
          | succ l =>
              exact extended_of_walked (by omega) hid hlow hspine (addTraverse_spec id passed l tn pool₁)
          | zero =>
              cases passed with
              | some leaf =>
                  exact extended_of_walked (Nat.zero_le _) hid hlow hspine (walked_top_passed id leaf tn pool₁)
              | none =>
                  exact extended_of_walked (Nat.zero_le _) hid hlow hspine (walked_top id tn pool₁)

theorem tnode0_internal_zero {tn : Tnode g (l + 1)} (h : ∀ x, x ≠ 0 → tn.internal x = none) (chunkId : Nat) :
    tnode0 ⟨l, tn.internal 0⟩ chunkId = tnode0 ⟨l + 1, some tn⟩ chunkId := by
  rw [tnode0, tnode0]
  simp only
  by_cases hlow : chunkId / 16 < 8 ^ (l + 1)
  · rw [if_pos hlow, leafAt_succ]
    by_cases hzero : chunkId / 16 < 8 ^ l
    · rw [if_pos hzero, (slot_eq_zero_iff hlow).mpr hzero]
    · rw [if_neg hzero, h _ fun hslot => hzero ((slot_eq_zero_iff hlow).mp hslot), leafAt_none]
  · rw [if_neg hlow, if_neg fun hlt => hlow (Nat.lt_of_lt_of_le hlt (Nat.pow_le_pow_right (by decide) (Nat.le_succ _)))]

theorem tnodes_internal_zero {tn : Tnode g (l + 1)} (h : ∀ x, x ≠ 0 → tn.internal x = none) :
    countTnodes (l + 1) (some tn) = countTnodes l (tn.internal 0) + 1 := by
  have hnone : countTnodes l (none : Option (Tnode g l)) = 0 := by cases l <;> rfl
  rw [countTnodes_succ, Finset.sum_eq_single 0 (fun x _ hx => by rw [h x hx, hnone]) fun h => absurd (Finset.mem_univ _) h]

theorem shorten_spec : ∀ (l : Nat) (top : Option (Tnode g l)) (pool : TnodePool), Spine l top →
    l ≤ YAFFS_TNODES_MAX_LEVEL →
    (shorten l top pool).1.Sound ∧ (∀ chunkId, (shorten l top pool).1.tnode0 chunkId = tnode0 ⟨l, top⟩ chunkId) ∧
      (shorten l top pool).2.nTnodes - (shorten l top pool).1.tnodes = pool.nTnodes - countTnodes l top ∧
      pool.avail ≤ (shorten l top pool).2.avail := by
  intro l
  induction l with
  | zero => exact fun top pool h hl => ⟨⟨hl, h⟩, fun _ => rfl, rfl, Nat.le_refl _⟩
  | succ l ih =>
      intro top pool h hl
      cases top with
      | none => exact absurd h not_spine_none
      | some tn =>
          rw [shorten]
          split_ifs with hdata
          · exact ⟨⟨hl, h⟩, fun _ => rfl, rfl, Nat.le_refl _⟩
          · have hempty : ∀ x, x ≠ 0 → tn.internal x = none := by
              intro x hx
              rw [Bool.not_eq_true, List.any_eq_false] at hdata
              have hnot := hdata x (List.mem_finRange x)
              rw [decide_eq_true hx, Bool.true_and] at hnot
              exact Option.not_isSome_iff_eq_none.mp hnot
            obtain ⟨tn', heq, hspine⟩ := h
            obtain rfl := Option.some.inj heq
            obtain ⟨hsound, hleaf, hcount, havail⟩ := ih (tn.internal 0) (yaffsFreeTnode pool) hspine (Nat.le_of_succ_le hl)
            refine ⟨hsound, fun chunkId => (hleaf chunkId).trans (tnode0_internal_zero hempty chunkId), ?_,
              Nat.le_trans (Nat.le_succ _) havail⟩
            rw [hcount, tnodes_internal_zero hempty, yaffsFreeTnode]
            simp only
            omega

theorem pruneTree_spec (h : file.Sound) (pool : TnodePool) :
    (yaffsPruneTree file pool).1.Sound ∧
      (∀ chunkId, (yaffsPruneTree file pool).1.tnode0 chunkId = file.tnode0 chunkId) ∧
      (yaffsPruneTree file pool).2.nTnodes - (yaffsPruneTree file pool).1.tnodes = pool.nTnodes - file.tnodes ∧
      pool.avail ≤ (yaffsPruneTree file pool).2.avail := by
  obtain ⟨l, top⟩ := file
  rw [yaffsPruneTree]
  split_ifs with hlevel
  · exact ⟨h, fun _ => rfl, rfl, Nat.le_refl _⟩
  · cases top with
    | none => exact absurd h.spine not_spine_none
    | some tn =>
        obtain ⟨hpruned, hspine⟩ := pruneWorker_spec l tn false pool
        obtain ⟨hsound, hleaf, hcount, havail⟩ := shorten_spec l (pruneWorker l tn false pool).1 (pruneWorker l tn false pool).2
          (hspine rfl h.spine) h.level_le
        have hbalanced := hpruned.balanced
        refine ⟨hsound, fun chunkId => (hleaf chunkId).trans ?_, ?_, Nat.le_trans hpruned.avail havail⟩
        · rw [tnode0, tnode0]
          exact if_congr Iff.rfl (hpruned.leaf chunkId) rfl
        · rw [Balanced, Int.add_zero] at hbalanced
          exact hcount.trans hbalanced

end FileVar

end Fl2440.Yaffs
