import TwelveC.Merkle
import TwelveC.PlainCrypto

/-!
# The root binds the blocks

Two lists of blocks of the same length with the same root are equal, or the two
trees hash two different inputs to the same digest. From level to level the
digests can be read back off the hashed pairs, since a digest has 32 octets; an
odd last node is paired with itself and is read back in the same way.
-/

namespace TwelveC.Merkle

variable (C : Primitives)

/-- What one round hashes. -/
def pairInputs : List Bytes → List Bytes
  | [] => []
  | [a] => [a ++ a]
  | a :: b :: rest => (a ++ b) :: pairInputs rest

/-- What the rounds of `climb` hash. -/
def climbInputs : Nat → List Bytes → List Bytes
  | 0, _ => []
  | fuel + 1, currentLevel =>
    if 1 < currentLevel.length then
      pairInputs currentLevel ++ climbInputs fuel (nextLevel C currentLevel)
    else []

/-- All inputs that `build_merkle_tree` hashes. -/
def hashedInputs (blocks : List Bytes) : List Bytes :=
  if blocks.isEmpty then [[]] else blocks ++ climbInputs C blocks.length (blocks.map (hashBlock C))

/-- Two distinct inputs with the same digest. -/
def Collision (inputs : List Bytes) : Prop :=
  ∃ a ∈ inputs, ∃ b ∈ inputs, a ≠ b ∧ C.sha256 a = C.sha256 b

variable {C}

theorem Collision.mono {inputs more : List Bytes} (h : Collision C inputs) (hsub : inputs ⊆ more) :
    Collision C more := by
  obtain ⟨a, ha, b, hb, hne, heq⟩ := h
  exact ⟨a, hsub ha, b, hsub hb, hne, heq⟩

theorem heads_subset (a x b y : List Bytes) : a ++ b ⊆ (a ++ x) ++ (b ++ y) := by
  intro z hz
  rcases List.mem_append.mp hz with hm | hm <;> simp [hm]

theorem tails_subset (a x b y : List Bytes) : x ++ y ⊆ (a ++ x) ++ (b ++ y) := by
  intro z hz
  rcases List.mem_append.mp hz with hm | hm <;> simp [hm]

theorem nextLevel_eq_map (level : List Bytes) : nextLevel C level = (pairInputs level).map C.sha256 := by
  fun_induction pairInputs level with
  | case1 => rfl
  | case2 a => rfl
  | case3 a b rest ih => simp [nextLevel, ih]

theorem pairInputs_length (level : List Bytes) : (pairInputs level).length = (level.length + 1) / 2 := by
  fun_induction pairInputs level with
  | case1 => rfl
  | case2 a => simp
  | case3 a b rest ih =>
    simp only [List.length_cons, ih]
    omega

theorem nextLevel_length (level : List Bytes) : (nextLevel C level).length = (level.length + 1) / 2 := by
  rw [nextLevel_eq_map, List.length_map, pairInputs_length]

/-- Nodes of one width are read back off the pairs. -/
theorem pairInputs_inj {width : Nat} {xs ys : List Bytes} (hx : ∀ x ∈ xs, x.length = width)
    (hy : ∀ y ∈ ys, y.length = width) (hlength : xs.length = ys.length)
    (h : pairInputs xs = pairInputs ys) : xs = ys := by
  fun_induction pairInputs xs generalizing ys with
  | case1 => exact (List.length_eq_zero_iff.mp hlength.symm).symm
  | case2 a =>
    obtain ⟨b, rfl⟩ := List.length_eq_one_iff.mp hlength.symm
    have hab : a ++ a = b ++ b := List.head_eq_of_cons_eq h
    have hw : a.length = b.length := (hx a (by simp)).trans (hy b (by simp)).symm
    rw [(List.append_inj hab hw).1]
  | case3 a b rest ih =>
    obtain ⟨c, ys, rfl⟩ := List.exists_cons_of_length_eq_add_one hlength.symm
    rw [List.length_cons, List.length_cons, List.length_cons, Nat.add_right_cancel_iff] at hlength
    obtain ⟨d, ys, rfl⟩ := List.exists_cons_of_length_eq_add_one hlength.symm
    rw [pairInputs, List.cons.injEq] at h
    have hw : a.length = c.length := (hx a (by simp)).trans (hy c (by simp)).symm
    obtain ⟨hac, hbd⟩ := List.append_inj h.1 hw
    have hrest : rest = ys := by
      apply ih
      · exact fun x hm => hx x (by simp [hm])
      · exact fun y hm => hy y (by simp [hm])
      · simpa using hlength
      · exact h.2
    rw [hac, hbd, hrest]

/-- Equal digests come from equal inputs, or two inputs collide. -/
theorem map_sha256_eq {xs ys : List Bytes} (h : xs.map C.sha256 = ys.map C.sha256) :
    xs = ys ∨ Collision C (xs ++ ys) := by
  induction xs generalizing ys with
  | nil =>
    left
    simpa using h.symm
  | cons x xs ih =>
    cases ys with
    | nil => cases h
    | cons y ys =>
      rw [List.map_cons, List.map_cons, List.cons.injEq] at h
      by_cases hxy : x = y
      · subst hxy
        rcases ih h.2 with rfl | hcollision
        · exact .inl rfl
        · right
          exact hcollision.mono (tails_subset [x] xs [x] ys)
      · exact .inr ⟨x, by simp, y, by simp, hxy, h.1⟩

def rootOf (levels : List (List Bytes)) : Bytes := (levels.getLastD []).headD []

theorem climb_ne_nil (fuel : Nat) (level : List Bytes) : climb C fuel level ≠ [] := by
  cases fuel with
  | zero => simp [climb]
  | succ fuel =>
    rw [climb]
    split <;> simp

theorem rootOf_cons {level : List Bytes} {levels : List (List Bytes)} (h : levels ≠ []) :
    rootOf (level :: levels) = rootOf levels := by
  obtain ⟨first, rest, rfl⟩ := List.exists_cons_of_ne_nil h
  rfl

theorem rootOf_single (x : Bytes) : rootOf [[x]] = x := rfl

theorem length_of_mem_nextLevel (hdigest : ∀ data, (C.sha256 data).length = 32) {level : List Bytes}
    {node : Bytes} (h : node ∈ nextLevel C level) : node.length = 32 := by
  rw [nextLevel_eq_map] at h
  obtain ⟨input, -, rfl⟩ := List.mem_map.mp h
  exact hdigest input

/-- On the number of rounds left: the level above binds this one. -/
theorem climb_binding (hdigest : ∀ data, (C.sha256 data).length = 32) {fuel : Nat}
    {xs ys : List Bytes} (hx : ∀ x ∈ xs, x.length = 32) (hy : ∀ y ∈ ys, y.length = 32)
    (hlength : xs.length = ys.length) (hpos : 1 ≤ xs.length) (hfuel : xs.length ≤ fuel + 1)
    (h : rootOf (climb C fuel xs) = rootOf (climb C fuel ys)) :
    xs = ys ∨ Collision C (climbInputs C fuel xs ++ climbInputs C fuel ys) := by
  induction fuel generalizing xs ys with
  | zero =>
    obtain ⟨x, rfl⟩ := List.length_eq_one_iff.mp (by omega : xs.length = 1)
    obtain ⟨y, rfl⟩ := List.length_eq_one_iff.mp hlength.symm
    left
    rw [climb, climb, rootOf_single, rootOf_single] at h
    rw [h]
  | succ fuel ih =>
    by_cases hone : 1 < xs.length
    · have hone' : 1 < ys.length := hlength ▸ hone
      rw [climb, climb, if_pos hone, if_pos hone', rootOf_cons (climb_ne_nil _ _),
        rootOf_cons (climb_ne_nil _ _)] at h
      have hdigests (level : List Bytes) : ∀ z ∈ nextLevel C level, z.length = 32 := fun _ hz =>
        length_of_mem_nextLevel hdigest hz
      rw [climbInputs, climbInputs, if_pos hone, if_pos hone']
      rcases ih (hdigests xs) (hdigests ys) (by rw [nextLevel_length, nextLevel_length, hlength])
        (by rw [nextLevel_length]; omega) (by rw [nextLevel_length]; omega) h with heq | hcollision
      · rw [nextLevel_eq_map, nextLevel_eq_map] at heq
        rcases map_sha256_eq heq with hpairs | hcollision
        · exact .inl (pairInputs_inj hx hy hlength hpairs)
        · exact .inr (hcollision.mono (heads_subset _ _ _ _))
      · exact .inr (hcollision.mono (tails_subset _ _ _ _))
    · obtain ⟨x, rfl⟩ := List.length_eq_one_iff.mp (by omega : xs.length = 1)
      obtain ⟨y, rfl⟩ := List.length_eq_one_iff.mp hlength.symm
      left
      rw [climb, climb, if_neg (by simp), if_neg (by simp), rootOf_single, rootOf_single] at h
      rw [h]

theorem length_rootOf (hdigest : ∀ data, (C.sha256 data).length = 32) (fuel : Nat) {level : List Bytes}
    (hlevel : ∀ node ∈ level, node.length = 32) (hpos : 1 ≤ level.length) :
    (rootOf (climb C fuel level)).length = 32 := by
  have hhead : ∀ nodes : List Bytes, (∀ node ∈ nodes, node.length = 32) → 1 ≤ nodes.length →
      (rootOf [nodes]).length = 32 := by
    intro nodes hnodes hne
    obtain ⟨first, rest, rfl⟩ := List.exists_cons_of_ne_nil (List.ne_nil_of_length_pos hne)
    exact hnodes first List.mem_cons_self
  induction fuel generalizing level with
  | zero => exact hhead level hlevel hpos
  | succ fuel ih =>
    rw [climb]
    split
    case isTrue hone =>
      rw [rootOf_cons (climb_ne_nil _ _)]
      exact ih (fun _ h => length_of_mem_nextLevel hdigest h) (by rw [nextLevel_length]; omega)
    case isFalse => exact hhead level hlevel hpos

theorem buildMerkleTree_rootHash {blocks : List Bytes} (h : blocks ≠ []) :
    (buildMerkleTree C blocks).rootHash =
      rootOf (climb C blocks.length (blocks.map (hashBlock C))) := by
  rw [buildMerkleTree, if_neg (by simpa using h), growTree, List.length_map]
  rfl

theorem length_rootHash (hdigest : ∀ data, (C.sha256 data).length = 32) {blocks : List Bytes}
    (h : blocks ≠ []) : (buildMerkleTree C blocks).rootHash.length = 32 := by
  rw [buildMerkleTree_rootHash h]
  refine length_rootOf hdigest _ (fun node hnode => ?_) ?_
  · obtain ⟨block, -, rfl⟩ := List.mem_map.mp hnode
    exact hdigest block
  · rw [List.length_map]
    exact List.length_pos_of_ne_nil h

theorem root_binding (hdigest : ∀ data, (C.sha256 data).length = 32) {xs ys : List Bytes}
    (hlength : xs.length = ys.length) (hpos : 1 ≤ xs.length)
    (h : (buildMerkleTree C xs).rootHash = (buildMerkleTree C ys).rootHash) :
    xs = ys ∨ Collision C (hashedInputs C xs ++ hashedInputs C ys) := by
  have hxs : xs ≠ [] := List.ne_nil_of_length_pos hpos
  have hys : ys ≠ [] := List.ne_nil_of_length_pos (by omega)
  have hleaves : ∀ blocks : List Bytes, ∀ leaf ∈ blocks.map (hashBlock C), leaf.length = 32 := by
    intro blocks leaf hm
    obtain ⟨block, -, rfl⟩ := List.mem_map.mp hm
    exact hdigest block
  rw [buildMerkleTree_rootHash hxs, buildMerkleTree_rootHash hys, ← hlength] at h
  rw [hashedInputs, hashedInputs, if_neg (by simpa using hxs), if_neg (by simpa using hys), ← hlength]
  rcases climb_binding hdigest (hleaves xs) (hleaves ys) (by simpa using hlength) (by simpa using hpos)
    (by simp) h with heq | hcollision
  · rcases map_sha256_eq heq with heq | hcollision
    · exact .inl heq
    · exact .inr (hcollision.mono (heads_subset _ _ _ _))
  · exact .inr (hcollision.mono (tails_subset _ _ _ _))

/-- The two builders agree, and the root binds every block. -/
theorem merkle_binding (C : Primitives) (hdigest : ∀ data, (C.sha256 data).length = 32) :
    (∀ blocks, (buildMerkleTreeFromLeafHashes C (blocks.map (hashBlock C))).rootHash =
      (buildMerkleTree C blocks).rootHash) ∧
    ∀ xs ys : List Bytes, xs.length = ys.length → 1 ≤ xs.length →
      (buildMerkleTree C xs).rootHash = (buildMerkleTree C ys).rootHash →
      xs = ys ∨ Collision C (hashedInputs C xs ++ hashedInputs C ys) := by
  refine ⟨fun blocks => ?_, fun xs ys hlength hpos h => root_binding hdigest hlength hpos h⟩
  rw [fromLeafHashes_map]

/-- Under a hash that pads with zeros an empty block and a zero octet collide. -/
theorem merkle_binding_padded :
    (buildMerkleTree PlainCrypto.plain [[1], [2], []]).rootHash =
      (buildMerkleTree PlainCrypto.plain [[1], [2], [0]]).rootHash ∧
    ([[1], [2], []] = ([[1], [2], [0]] : List Bytes) ∨ Collision PlainCrypto.plain
      (hashedInputs PlainCrypto.plain [[1], [2], []] ++
        hashedInputs PlainCrypto.plain [[1], [2], [0]])) :=
  have hroot : (buildMerkleTree PlainCrypto.plain [[1], [2], []]).rootHash =
      (buildMerkleTree PlainCrypto.plain [[1], [2], [0]]).rootHash := by decide +kernel
  ⟨hroot, (merkle_binding PlainCrypto.plain PlainCrypto.length_pad32).2 [[1], [2], []] [[1], [2], [0]]
    rfl (by decide) hroot⟩

end TwelveC.Merkle
