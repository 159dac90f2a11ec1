import Mathlib.Data.Fintype.Card
import Grafted.Base.ByteMemory

/-! Linked lists in memory, and walks that edit the nodes they come to.

A node is a number of bytes at its address and has the address of the next one in it. An edit is
`Local` when it stays in the node, leaves the link, and depends on nothing else. Walking a list whose
nodes are apart with such an edit is then editing every node (`walk_chain`, `foldl_node`), and walking
once more with the edit that undoes it gives all nodes back (`foldl_undone`). -/
namespace ByteMemory.Chain

/-- The nodes of the list at an address; the last one links to null. -/
def Linked (m : Memory) (link : Word) : Address → List Address → Prop
  | p, [] => p = 0
  | p, a :: rest => p = a ∧ a ≠ 0 ∧ Linked m link (m.readWord (a + link)) rest

/-- `x` is one of the bytes of the node. -/
def InNode (size : Nat) (a x : Address) : Prop := (x - a).toNat < size

instance (size : Nat) (a x : Address) : Decidable (InNode size a x) := inferInstanceAs (Decidable (_ < _))

/-- The nodes share no byte. -/
def Separate (size : Nat) (a b : Address) : Prop := size ≤ (a - b).toNat ∧ size ≤ (b - a).toNat

/-- Same bytes in the node. -/
def SameNode (size : Nat) (m m' : Memory) (a : Address) : Prop := ∀ x, InNode size a x → m' x = m x

/-- Edit every node, the link being read from the edited node. None if there is no end. -/
def walk (edit : Memory → Address → Memory) (link : Word) : Nat → Memory → Address → Option Memory
  | 0, _, _ => none
  | fuel + 1, m, p =>
    if p = 0 then some m else walk edit link fuel (edit m p) ((edit m p).readWord (p + link))

/-- One more than addresses: a walk that takes as many steps comes to a node again. -/
def enough : Nat := 2 ^ 64 + 1

structure Local (edit : Memory → Address → Memory) (size : Nat) (link : Word) : Prop where
  outside : ∀ m a x, ¬ InNode size a x → edit m a x = m x
  link : ∀ m a, (edit m a).readWord (a + link) = m.readWord (a + link)
  congr : ∀ m m' a, SameNode size m m' a → SameNode size (edit m a) (edit m' a) a

section Nodes
variable {size : Nat} {link : Word}

theorem SameNode.refl (m : Memory) (a : Address) : SameNode size m m a := fun _ _ => rfl

theorem SameNode.symm {m m' : Memory} {a : Address} (h : SameNode size m m' a) : SameNode size m' m a :=
  fun x hx => (h x hx).symm

theorem SameNode.trans {m m' m'' : Memory} {a : Address} (h : SameNode size m m' a)
    (h' : SameNode size m' m'' a) : SameNode size m m'' a := fun x hx => (h' x hx).trans (h x hx)

theorem Separate.not_inNode {a b x : Address} (h : Separate size a b) (hx : InNode size a x) :
    ¬ InNode size b x := by
  obtain ⟨hab, hba⟩ := h
  unfold InNode at hx ⊢
  bv_omega

theorem Separate.symm {a b : Address} (h : Separate size a b) : Separate size b a := ⟨h.2, h.1⟩

theorem Separate.ne (hsize : 0 < size) {a b : Address} (h : Separate size a b) : a ≠ b := by
  rintro rfl
  obtain ⟨hself, -⟩ := h
  bv_omega

/-- A word of a node. -/
theorem readWord_sameNode {m m' : Memory} {a : Address} {field : Word} (hfield : field.toNat + 8 ≤ size)
    (h : SameNode size m m' a) : m'.readWord (a + field) = m.readWord (a + field) := by
  apply Memory.readWord_congr
  intro i hi
  apply h
  unfold InNode
  bv_omega

/-- The list depends on its links. -/
theorem Linked.of_links {m m' : Memory} {p : Address} {nodes : List Address} (h : Linked m link p nodes)
    (hsame : ∀ a ∈ nodes, m'.readWord (a + link) = m.readWord (a + link)) : Linked m' link p nodes := by
  induction nodes generalizing p with
  | nil => exact h
  | cons a rest ih =>
    obtain ⟨hp, hne, hrest⟩ := h
    refine ⟨hp, hne, ?_⟩
    rw [hsame a List.mem_cons_self]
    exact ih hrest fun b hb => hsame b (List.mem_cons_of_mem a hb)

theorem Linked.congr (hlink : link.toNat + 8 ≤ size) {m m' : Memory} {p : Address} {nodes : List Address}
    (h : Linked m link p nodes) (hsame : ∀ a ∈ nodes, SameNode size m m' a) : Linked m' link p nodes :=
  h.of_links fun a ha => readWord_sameNode hlink (hsame a ha)

/-- There are no more nodes than addresses. -/
theorem length_lt_enough (hsize : 0 < size) {nodes : List Address} (h : nodes.Pairwise (Separate size)) :
    nodes.length < enough := by
  have hnodup : (nodes.map BitVec.toFin).Nodup := by
    refine List.Nodup.map (fun a b hab => BitVec.eq_of_toFin_eq hab) ?_
    exact h.imp fun hab => hab.ne hsize
  have hcard := hnodup.length_le_card
  rw [List.length_map, Fintype.card_fin] at hcard
  exact Nat.lt_succ_of_le hcard

end Nodes

section Walk
variable {edit : Memory → Address → Memory} {size : Nat} {link : Word}

theorem foldl_outside (hedit : Local edit size link) {m : Memory} {nodes : List Address} {x : Address}
    (h : ∀ a ∈ nodes, ¬ InNode size a x) : nodes.foldl edit m x = m x := by
  induction nodes generalizing m with
  | nil => rfl
  | cons a rest ih =>
    have hfirst := h a List.mem_cons_self
    rw [List.foldl_cons, ih fun b hb => h b (List.mem_cons_of_mem a hb), hedit.outside m a x hfirst]

/-- A node that is none of these stays. -/
theorem foldl_separate (hedit : Local edit size link) (m : Memory) {nodes : List Address} {a : Address}
    (h : ∀ b ∈ nodes, Separate size a b) : SameNode size m (nodes.foldl edit m) a :=
  fun _ hx => foldl_outside hedit fun b hb => (h b hb).not_inNode hx

/-- The walk ends, and has edited every node once. -/
theorem walk_chain (hlink : link.toNat + 8 ≤ size) (hedit : Local edit size link) {fuel : Nat} {m : Memory}
    {p : Address} {nodes : List Address} (h : Linked m link p nodes)
    (hapart : nodes.Pairwise (Separate size)) (hfuel : nodes.length < fuel) :
    walk edit link fuel m p = some (nodes.foldl edit m) := by
  induction nodes generalizing fuel m p with
  | nil =>
    obtain ⟨n, rfl⟩ := Nat.exists_eq_succ_of_ne_zero (Nat.pos_iff_ne_zero.mp hfuel)
    exact if_pos h
  | cons a rest ih =>
    obtain ⟨n, rfl⟩ := Nat.exists_eq_succ_of_ne_zero (Nat.ne_zero_of_lt hfuel)
    obtain ⟨rfl, hne, hrest⟩ := h
    obtain ⟨hfirst, hlater⟩ := List.pairwise_cons.mp hapart
    have hkept : ∀ b ∈ rest, SameNode size m (edit m p) b :=
      fun b hb x hx => hedit.outside m p x ((hfirst b hb).symm.not_inNode hx)
    have hnext := hrest.congr hlink hkept
    rw [← hedit.link m p] at hnext
    rw [walk, if_neg hne, ih hnext hlater (Nat.lt_of_succ_lt_succ hfuel), List.foldl_cons]

/-- Each node is edited as if it were the only one. -/
theorem foldl_node (hedit : Local edit size link) {m : Memory} {nodes : List Address}
    (hapart : nodes.Pairwise (Separate size)) {a : Address} (ha : a ∈ nodes) :
    SameNode size (edit m a) (nodes.foldl edit m) a := by
  induction nodes generalizing m with
  | nil => cases ha
  | cons b rest ih =>
    obtain ⟨hfirst, hlater⟩ := List.pairwise_cons.mp hapart
    rw [List.foldl_cons]
    cases ha with
    | head => exact foldl_separate hedit _ hfirst
    | tail _ ha =>
      have hab := hfirst a ha
      have hkept : SameNode size m (edit m b) a :=
        fun x hx => hedit.outside m b x (hab.symm.not_inNode hx)
      exact (hedit.congr m _ a hkept).trans (ih hlater ha)

/-- An edit that undoes itself, made to all nodes of a memory that has them edited, gives them back. -/
theorem foldl_undone (hedit : Local edit size link)
    (hundo : ∀ m a, SameNode size m (edit (edit m a) a) a) {m m' : Memory} {nodes : List Address}
    (hapart : nodes.Pairwise (Separate size))
    (hsame : ∀ a ∈ nodes, SameNode size (nodes.foldl edit m) m' a) {a : Address} (ha : a ∈ nodes) :
    SameNode size m (nodes.foldl edit m') a := by
  have hedited : SameNode size (edit m a) m' a := (foldl_node hedit hapart ha).trans (hsame a ha)
  have hback := (hundo m a).trans (hedit.congr _ _ a hedited)
  exact hback.trans (foldl_node hedit hapart ha)

end Walk

end ByteMemory.Chain
