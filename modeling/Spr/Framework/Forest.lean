import Mathlib.Data.List.Nodup
import Mathlib.Data.List.Perm.Basic

/-! # Forests in memory

    Forests in the first-child, next-brother form, and their nodes as words that
    link to each other.

    * `Forest`, `toList`, `roots`: the forests and their nodes.
    * `childrenAt`, `splice`, `remove`: one node, found by its key.
    * `split_at`: a forest is the node, its descendants and the rest.
    * `Linked`, `Rooted`: the links of the nodes make up the forest.
    * `Under`, `Nested`: the links from the nodes to their parents.
    * `exists_parent`: a node that is not a root is among some node's children.
    * `descend`, `passed`: what a walk reaches that goes on below some nodes only,
      and what it passes over. -/

namespace Spr.Forests

/-! ## Section 1: Forests -/

/-- A forest: its first tree's node, that node's children, and the other trees. -/
inductive Forest (α : Type) where
  | nil : Forest α
  | node (a : α) (children brothers : Forest α) : Forest α
  deriving DecidableEq, Repr

variable {α β : Type}

namespace Forest

/-- All nodes, parents before children. -/
def toList : Forest α → List α
  | nil => []
  | node a children brothers => a :: (children.toList ++ brothers.toList)

/-- The nodes without a parent. -/
def roots : Forest α → List α
  | nil => []
  | node a _ brothers => a :: brothers.roots

def map (f : α → β) : Forest α → Forest β
  | nil => nil
  | node a children brothers => node (f a) (children.map f) (brothers.map f)

@[simp] theorem toList_nil : (nil : Forest α).toList = [] := rfl

@[simp] theorem toList_node (a : α) (cs bs : Forest α) :
    (node a cs bs).toList = a :: (cs.toList ++ bs.toList) := rfl

@[simp] theorem toList_map (f : α → β) (t : Forest α) : (t.map f).toList = t.toList.map f := by
  induction t with
  | nil => rfl
  | node a cs bs ihc ihb => simp [map, ihc, ihb]

theorem roots_subset {t : Forest α} {a : α} (ha : a ∈ t.roots) : a ∈ t.toList := by
  induction t with
  | nil => cases ha
  | node b cs bs _ ihb =>
    rcases List.mem_cons.mp ha with rfl | ha
    · exact List.mem_cons_self
    · exact List.mem_cons_of_mem _ (List.mem_append_right _ (ihb ha))

@[simp] theorem roots_map (f : α → β) (t : Forest α) : (t.map f).roots = t.roots.map f := by
  induction t with
  | nil => rfl
  | node a cs bs _ ihb => simp [map, roots, ihb]

/-! ## Section 2: One node -/

section Keys

variable {κ : Type} [DecidableEq κ] (key : α → κ) (k : κ)

/-- The children of the node with the key `k`. -/
def childrenAt : Forest α → Forest α
  | nil => nil
  | node a cs bs =>
      if key a = k then cs
      else if k ∈ cs.toList.map key then cs.childrenAt
      else bs.childrenAt

/-- The node with the key `k`, and its children, replaced. -/
def splice (g : α → Forest α → α × Forest α) : Forest α → Forest α
  | nil => nil
  | node a cs bs =>
      if key a = k then node (g a cs).1 (g a cs).2 bs
      else node a (cs.splice g) (bs.splice g)

/-- The forest without the node with the key `k` and its descendants. -/
def remove : Forest α → Forest α
  | nil => nil
  | node a cs bs => if key a = k then bs else node a cs.remove bs.remove

/-- The tree of the node with the key `k`, put in front of the children of the
    node with the key `parent`. -/
def graft (parent : κ) (g : α → α → α × α) (t : Forest α) : Forest α :=
  match t.toList.find? fun a => key a = k with
  | none => t
  | some a => (t.remove key k).splice key parent fun b bs =>
      ((g a b).2, node (g a b).1 (t.childrenAt key k) bs)

variable {key k}

theorem splice_of_notMem {g : α → Forest α → α × Forest α} {t : Forest α}
    (h : k ∉ t.toList.map key) : t.splice key k g = t := by
  induction t with
  | nil => rfl
  | node a cs bs ihc ihb =>
    simp only [toList_node, List.map_cons, List.map_append, List.mem_cons, List.mem_append,
      not_or] at h
    rw [splice, if_neg (Ne.symm h.1), ihc h.2.1, ihb h.2.2]

theorem splice_same {g : α → Forest α → α × Forest α} (hg : ∀ a cs, g a cs = (a, cs))
    (t : Forest α) : t.splice key k g = t := by
  induction t with
  | nil => rfl
  | node a cs bs ihc ihb =>
    rw [splice, hg, ihc, ihb]
    split <;> rfl

theorem remove_of_notMem {t : Forest α} (h : k ∉ t.toList.map key) : t.remove key k = t := by
  induction t with
  | nil => rfl
  | node a cs bs ihc ihb =>
    simp only [toList_node, List.map_cons, List.map_append, List.mem_cons, List.mem_append,
      not_or] at h
    rw [remove, if_neg (Ne.symm h.1), ihc h.2.1, ihb h.2.2]

omit [DecidableEq κ] in
/-- The parts of a forest whose nodes have different keys. -/
theorem nodup_node {a : α} {cs bs : Forest α} (h : ((node a cs bs).toList.map key).Nodup) :
    key a ∉ cs.toList.map key ∧ key a ∉ bs.toList.map key ∧ (cs.toList.map key).Nodup ∧
      (bs.toList.map key).Nodup ∧ ∀ x ∈ cs.toList.map key, x ∉ bs.toList.map key := by
  rw [toList_node, List.map_cons, List.map_append, List.nodup_cons, List.mem_append,
    not_or, List.nodup_append] at h
  exact ⟨h.1.1, h.1.2, h.2.1, h.2.2.1, fun x hx hx' => h.2.2.2 x hx x hx' rfl⟩

/-- **A forest is a node, its descendants and the rest**; a change of the node and
    its children leaves the rest, and so does the removal of the node's tree. -/
theorem split_at {t : Forest α} {a : α} (hnd : (t.toList.map key).Nodup) (ha : a ∈ t.toList) :
    ∃ rest, t.toList.Perm (a :: ((t.childrenAt key (key a)).toList ++ rest)) ∧
      (t.remove key (key a)).toList.Perm rest ∧
      ∀ g : α → Forest α → α × Forest α, (t.splice key (key a) g).toList.Perm
        ((g a (t.childrenAt key (key a))).1 ::
          ((g a (t.childrenAt key (key a))).2.toList ++ rest)) := by
  classical
  simp only [List.perm_iff_count]
  induction t with
  | nil => cases ha
  | node b cs bs ihc ihb =>
    obtain ⟨hbc, hbb, hnc, hnb, hdis⟩ := nodup_node hnd
    rw [toList_node, List.mem_cons, List.mem_append] at ha
    rcases ha with rfl | ha | ha
    · -- the node is the first one: the rest are its brothers
      refine ⟨bs.toList, fun x => ?_, fun x => ?_, fun g x => ?_⟩
      · simp [childrenAt]
      · simp [remove]
      · simp [splice, childrenAt]
    · -- it is below the first node
      have hin : key a ∈ cs.toList.map key := List.mem_map_of_mem ha
      have hne : key b ≠ key a := (ne_of_mem_of_not_mem hin hbc).symm
      obtain ⟨rest, h₁, h₂, h₃⟩ := ihc hnc ha
      refine ⟨b :: (rest ++ bs.toList), fun x => ?_, fun x => ?_, fun g x => ?_⟩
      · rw [childrenAt, if_neg hne, if_pos hin]
        have := h₁ x
        simp only [toList_node, List.count_cons, List.count_append] at this ⊢
        omega
      · rw [remove, if_neg hne, remove_of_notMem (hdis _ hin)]
        have := h₂ x
        simp only [toList_node, List.count_cons, List.count_append] at this ⊢
        omega
      · rw [childrenAt, if_neg hne, if_pos hin, splice, if_neg hne, splice_of_notMem (hdis _ hin)]
        have := h₃ g x
        simp only [toList_node, List.count_cons, List.count_append] at this ⊢
        omega
    · -- it is in another tree
      have hin : key a ∈ bs.toList.map key := List.mem_map_of_mem ha
      have hne : key b ≠ key a := (ne_of_mem_of_not_mem hin hbb).symm
      have hout : key a ∉ cs.toList.map key := fun h => hdis _ h hin
      obtain ⟨rest, h₁, h₂, h₃⟩ := ihb hnb ha
      refine ⟨b :: (cs.toList ++ rest), fun x => ?_, fun x => ?_, fun g x => ?_⟩
      · rw [childrenAt, if_neg hne, if_neg hout]
        have := h₁ x
        simp only [toList_node, List.count_cons, List.count_append] at this ⊢
        omega
      · rw [remove, if_neg hne, remove_of_notMem hout]
        have := h₂ x
        simp only [toList_node, List.count_cons, List.count_append] at this ⊢
        omega
      · rw [childrenAt, if_neg hne, if_neg hout, splice, if_neg hne, splice_of_notMem hout]
        have := h₃ g x
        simp only [toList_node, List.count_cons, List.count_append] at this ⊢
        omega

theorem find_key {t : Forest α} {a : α} (hnd : (t.toList.map key).Nodup) (ha : a ∈ t.toList) :
    t.toList.find? (fun b => key b = key a) = some a := by
  cases hfind : t.toList.find? fun b => key b = key a with
  | none => exact absurd (List.find?_eq_none.mp hfind a ha) (by simp)
  | some b =>
    have hkey : key b = key a := by simpa using List.find?_some hfind
    rw [List.inj_on_of_nodup_map hnd (List.mem_of_find?_eq_some hfind) ha hkey]

theorem graft_eq {t : Forest α} {a : α} {parent : κ} {g : α → α → α × α}
    (hnd : (t.toList.map key).Nodup) (ha : a ∈ t.toList) :
    t.graft key (key a) parent g = (t.remove key (key a)).splice key parent fun b bs =>
      ((g a b).2, node (g a b).1 (t.childrenAt key (key a)) bs) := by
  rw [graft, find_key hnd ha]

/-- **A grafted forest** has the same nodes, but for the two that are linked. -/
theorem graft_perm {t : Forest α} {a b : α} {g : α → α → α × α} (hnd : (t.toList.map key).Nodup)
    (ha : a ∈ t.toList) (hb : b ∈ t.toList) (hne : key b ≠ key a)
    (hout : b ∉ (t.childrenAt key (key a)).toList) :
    ∃ rest, t.toList.Perm (a :: b :: rest) ∧
      (t.graft key (key a) (key b) g).toList.Perm ((g a b).1 :: (g a b).2 :: rest) := by
  classical
  obtain ⟨rest, hold, hrest, -⟩ := split_at hnd ha
  -- the new parent is not below the tree that is moved
  have hb' : b ∈ (t.remove key (key a)).toList := by
    have := hold.mem_iff.mp hb
    rcases List.mem_cons.mp this with rfl | this
    · exact absurd rfl hne
    · rcases List.mem_append.mp this with hin | hin
      · exact absurd hin hout
      · exact hrest.mem_iff.mpr hin
  have hnd' : ((t.remove key (key a)).toList.map key).Nodup := by
    have hall := (hold.map key).nodup_iff.mp hnd
    rw [List.map_cons, List.map_append] at hall
    exact (hrest.map key).nodup_iff.mpr (List.nodup_cons.mp hall).2.of_append_right
  obtain ⟨rest', hold', -, hnew⟩ := split_at hnd' hb'
  refine ⟨(t.childrenAt key (key a)).toList ++
    ((childrenAt key (key b) (t.remove key (key a))).toList ++ rest'), ?_, ?_⟩
  · rw [List.perm_iff_count]
    intro x
    have h₁ := hold.count_eq x
    have h₂ := hrest.count_eq x
    have h₃ := hold'.count_eq x
    simp only [List.count_cons, List.count_append] at h₁ h₃ ⊢
    omega
  · rw [graft_eq hnd ha, List.perm_iff_count]
    intro x
    have h := (hnew fun b bs =>
      ((g a b).2, node (g a b).1 (t.childrenAt key (key a)) bs)).count_eq x
    simp only [toList_node, List.count_cons, List.count_append] at h ⊢
    omega

section Maps

variable {key' : β → κ} {f : α → β}

theorem map_remove (hkey : ∀ a, key' (f a) = key a) (t : Forest α) :
    (t.remove key k).map f = (t.map f).remove key' k := by
  induction t with
  | nil => rfl
  | node a cs bs ihc ihb =>
    rw [map, remove, remove, hkey]
    split
    · rfl
    · rw [map, ihc, ihb]

theorem map_childrenAt (hkey : ∀ a, key' (f a) = key a) (t : Forest α) :
    (t.childrenAt key k).map f = (t.map f).childrenAt key' k := by
  have hmap : ∀ t : Forest α, (t.map f).toList.map key' = t.toList.map key := fun t => by
    rw [toList_map, List.map_map]
    exact List.map_congr_left fun a _ => hkey a
  induction t with
  | nil => rfl
  | node a cs bs ihc ihb =>
    rw [map, childrenAt, childrenAt, hkey, hmap]
    split
    · rfl
    · split
      · exact ihc
      · exact ihb

theorem map_splice (hkey : ∀ a, key' (f a) = key a) {g : α → Forest α → α × Forest α}
    {g' : β → Forest β → β × Forest β} {t : Forest α}
    (hg : ∀ a ∈ t.toList, key a = k → ∀ cs,
      g' (f a) (cs.map f) = (f (g a cs).1, (g a cs).2.map f)) :
    (t.splice key k g).map f = (t.map f).splice key' k g' := by
  induction t with
  | nil => rfl
  | node a cs bs ihc ihb =>
    rw [map, splice, splice, hkey]
    split
    · rename_i heq
      rw [hg a List.mem_cons_self heq cs, map]
    · rw [map, ihc fun x hx => hg x (List.mem_cons_of_mem _ (List.mem_append_left _ hx)),
        ihb fun x hx => hg x (List.mem_cons_of_mem _ (List.mem_append_right _ hx))]

theorem map_graft (hkey : ∀ a, key' (f a) = key a) {parent : κ} {g : α → α → α × α}
    {g' : β → β → β × β} {t : Forest α} {a : α} (hnd : (t.toList.map key).Nodup)
    (ha : a ∈ t.toList)
    (hg : ∀ b ∈ t.toList, key b = parent → g' (f a) (f b) = (f (g a b).1, f (g a b).2)) :
    (t.graft key (key a) parent g).map f = (t.map f).graft key' (key a) parent g' := by
  have hmap : (t.map f).toList.map key' = t.toList.map key := by
    rw [toList_map, List.map_map]
    exact List.map_congr_left fun a _ => hkey a
  have ha' : f a ∈ (t.map f).toList := by
    rw [toList_map]
    exact List.mem_map_of_mem ha
  rw [graft_eq hnd ha, ← hkey a, graft_eq (by rwa [hmap]) ha', hkey a, ← map_remove hkey,
    ← map_childrenAt hkey]
  refine map_splice hkey fun b hb hbk cs => ?_
  obtain ⟨rest, hold, hrest, -⟩ := split_at hnd ha
  rw [hg b ?_ hbk]
  · rfl
  · exact hold.mem_iff.mpr
      (List.mem_cons_of_mem _ (List.mem_append_right _ (hrest.mem_iff.mp hb)))

end Maps

end Keys

end Forest

/-! ## Section 3: Links -/

section Links

variable (addr first next : α → Nat)

/-- The chain of brothers that starts at `start` is the forest: `first` leads to a
    node's children, `next` to its next brother, and zero ends a chain. -/
def Linked : Nat → Forest α → Prop
  | start, .nil => start = 0
  | start, .node a cs bs => start = addr a ∧ Linked (first a) cs ∧ Linked (next a) bs

/-- The trees of the forest are linked; their roots need not be. -/
def Rooted : Forest α → Prop
  | .nil => True
  | .node a cs bs => Linked addr first next (first a) cs ∧ Rooted bs

variable {addr first next}

theorem linked_childrenAt {κ : Type} [DecidableEq κ] {key : α → κ} {t : Forest α} {a : α} :
    ∀ {start : Nat}, Linked addr first next start t → (t.toList.map key).Nodup → a ∈ t.toList →
      Linked addr first next (first a) (t.childrenAt key (key a)) := by
  induction t with
  | nil => intro _ _ _ ha; cases ha
  | node b cs bs ihc ihb =>
    intro start h hnd ha
    obtain ⟨-, hc, hb⟩ := h
    obtain ⟨hbc, hbb, hnc, hnb, hdis⟩ := Forest.nodup_node hnd
    rw [Forest.toList_node, List.mem_cons, List.mem_append] at ha
    rcases ha with rfl | ha | ha
    · rw [Forest.childrenAt, if_pos rfl]
      exact hc
    · have hin : key a ∈ cs.toList.map key := List.mem_map_of_mem ha
      rw [Forest.childrenAt, if_neg (ne_of_mem_of_not_mem hin hbc).symm, if_pos hin]
      exact ihc hc hnc ha
    · have hin : key a ∈ bs.toList.map key := List.mem_map_of_mem ha
      rw [Forest.childrenAt, if_neg (ne_of_mem_of_not_mem hin hbb).symm,
        if_neg fun h => hdis _ h hin]
      exact ihb hb hnb ha

theorem rooted_childrenAt {κ : Type} [DecidableEq κ] {key : α → κ} {t : Forest α} {a : α}
    (h : Rooted addr first next t) (hnd : (t.toList.map key).Nodup) (ha : a ∈ t.toList) :
    Linked addr first next (first a) (t.childrenAt key (key a)) := by
  induction t with
  | nil => cases ha
  | node b cs bs ihc ihb =>
    obtain ⟨hc, hb⟩ := h
    obtain ⟨hbc, hbb, hnc, hnb, hdis⟩ := Forest.nodup_node hnd
    rw [Forest.toList_node, List.mem_cons, List.mem_append] at ha
    rcases ha with rfl | ha | ha
    · rw [Forest.childrenAt, if_pos rfl]
      exact hc
    · have hin : key a ∈ cs.toList.map key := List.mem_map_of_mem ha
      rw [Forest.childrenAt, if_neg (ne_of_mem_of_not_mem hin hbc).symm, if_pos hin]
      exact linked_childrenAt hc hnc ha
    · have hin : key a ∈ bs.toList.map key := List.mem_map_of_mem ha
      rw [Forest.childrenAt, if_neg (ne_of_mem_of_not_mem hin hbb).symm,
        if_neg fun h => hdis _ h hin]
      exact ihb hb hnb ha

/-- The change keeps the node's place among its brothers, and links its new
    children. -/
def Relinks (addr first next : α → Nat) (a : α) (g : α → Forest α → α × Forest α) : Prop :=
  ∀ cs, Linked addr first next (first a) cs →
    addr (g a cs).1 = addr a ∧ next (g a cs).1 = next a ∧
      Linked addr first next (first (g a cs).1) (g a cs).2

section Splice

variable {κ : Type} [DecidableEq κ] {key : α → κ} {k : κ} {g : α → Forest α → α × Forest α}

theorem linked_splice {t : Forest α} :
    ∀ {start : Nat}, (∀ a ∈ t.toList, key a = k → Relinks addr first next a g) →
      Linked addr first next start t → Linked addr first next start (t.splice key k g) := by
  induction t with
  | nil => intro _ _ h; exact h
  | node a cs bs ihc ihb =>
    intro start hg h
    obtain ⟨hs, hc, hb⟩ := h
    by_cases heq : key a = k
    · obtain ⟨ha, hn, hl⟩ := hg a List.mem_cons_self heq cs hc
      rw [Forest.splice, if_pos heq]
      exact ⟨hs.trans ha.symm, hl, by rw [hn]; exact hb⟩
    · rw [Forest.splice, if_neg heq]
      exact ⟨hs, ihc (fun x hx => hg x (List.mem_cons_of_mem _ (List.mem_append_left _ hx))) hc,
        ihb (fun x hx => hg x (List.mem_cons_of_mem _ (List.mem_append_right _ hx))) hb⟩

/-- **A change of one node** keeps the forest linked. -/
theorem rooted_splice {t : Forest α} (hg : ∀ a ∈ t.toList, key a = k → Relinks addr first next a g)
    (h : Rooted addr first next t) : Rooted addr first next (t.splice key k g) := by
  induction t with
  | nil => exact h
  | node a cs bs ihc ihb =>
    obtain ⟨hc, hb⟩ := h
    by_cases heq : key a = k
    · rw [Forest.splice, if_pos heq]
      exact ⟨(hg a List.mem_cons_self heq cs hc).2.2, hb⟩
    · rw [Forest.splice, if_neg heq]
      exact ⟨linked_splice (fun x hx =>
          hg x (List.mem_cons_of_mem _ (List.mem_append_left _ hx))) hc,
        ihb (fun x hx => hg x (List.mem_cons_of_mem _ (List.mem_append_right _ hx))) hb⟩

end Splice

/-- **A tree can be taken out** where its root has no parent. -/
theorem rooted_remove {κ : Type} [DecidableEq κ] {key : α → κ} {t : Forest α} {a : α}
    (h : Rooted addr first next t) (hnd : (t.toList.map key).Nodup) (ha : a ∈ t.roots) :
    Rooted addr first next (t.remove key (key a)) := by
  induction t with
  | nil => exact h
  | node b cs bs _ ihb =>
    obtain ⟨hc, hb⟩ := h
    obtain ⟨-, hbb, -, hnb, hdis⟩ := Forest.nodup_node hnd
    rcases List.mem_cons.mp ha with rfl | ha
    · rw [Forest.remove, if_pos rfl]
      exact hb
    · have hin : key a ∈ bs.toList.map key := List.mem_map_of_mem (Forest.roots_subset ha)
      rw [Forest.remove, if_neg (ne_of_mem_of_not_mem hin hbb).symm,
        Forest.remove_of_notMem fun hc' => hdis _ hc' hin]
      exact ⟨hc, ihb hb hnb ha⟩

/-- **A tree can be put under another node**, in front of its children. -/
theorem rooted_graft {κ : Type} [DecidableEq κ] {key : α → κ} {parent : κ} {g : α → α → α × α}
    {t : Forest α} {a : α} (h : Rooted addr first next t) (hnd : (t.toList.map key).Nodup)
    (ha : a ∈ t.roots)
    (hg : ∀ b ∈ t.toList, key b = parent → addr (g a b).2 = addr b ∧ next (g a b).2 = next b ∧
      first (g a b).2 = addr (g a b).1 ∧ first (g a b).1 = first a ∧ next (g a b).1 = first b) :
    Rooted addr first next (t.graft key (key a) parent g) := by
  have hin := Forest.roots_subset ha
  rw [Forest.graft_eq hnd hin]
  refine rooted_splice (fun b hb hbk bs hbs => ?_) (rooted_remove h hnd ha)
  obtain ⟨rest, hold, hrest, -⟩ := Forest.split_at hnd hin
  obtain ⟨h₁, h₂, h₃, h₄, h₅⟩ := hg b (hold.mem_iff.mpr
    (List.mem_cons_of_mem _ (List.mem_append_right _ (hrest.mem_iff.mp hb)))) hbk
  refine ⟨h₁, h₂, h₃, ?_, ?_⟩
  · rw [h₄]
    exact rooted_childrenAt h hnd hin
  · rw [h₅]
    exact hbs

end Links

/-! ## Section 4: Links upwards -/

section Upwards

variable {κ : Type} [DecidableEq κ] (up key : α → κ)

/-- The nodes without a parent have the link `k`, the others their parent's key. -/
def Under : κ → Forest α → Prop
  | _, .nil => True
  | k, .node a cs bs => up a = k ∧ Under (key a) cs ∧ Under k bs

/-- Every node with a parent has its parent's key for a link. -/
def Nested : Forest α → Prop
  | .nil => True
  | .node a cs bs => Under up key (key a) cs ∧ Nested bs

variable {up key}

omit [DecidableEq κ] in
theorem under_roots {t : Forest α} {k : κ} {a : α} (h : Under up key k t) (ha : a ∈ t.roots) :
    up a = k := by
  induction t with
  | nil => cases ha
  | node b cs bs _ ihb =>
    obtain ⟨hup, -, hb⟩ := h
    rcases List.mem_cons.mp ha with rfl | ha
    · exact hup
    · exact ihb hb ha

omit [DecidableEq κ] in
theorem Under.nested {t : Forest α} : ∀ {k : κ}, Under up key k t → Nested up key t := by
  induction t with
  | nil => intro _ _; trivial
  | node a cs bs _ ihb => exact fun h => ⟨h.2.1, ihb h.2.2⟩

theorem nested_childrenAt {t : Forest α} {a : α} (h : Nested up key t)
    (hnd : (t.toList.map key).Nodup) (ha : a ∈ t.toList) :
    Under up key (key a) (t.childrenAt key (key a)) := by
  induction t with
  | nil => cases ha
  | node b cs bs ihc ihb =>
    obtain ⟨hc, hb⟩ := h
    obtain ⟨hbc, hbb, hnc, hnb, hdis⟩ := Forest.nodup_node hnd
    rw [Forest.toList_node, List.mem_cons, List.mem_append] at ha
    rcases ha with rfl | ha | ha
    · rw [Forest.childrenAt, if_pos rfl]
      exact hc
    · have hin : key a ∈ cs.toList.map key := List.mem_map_of_mem ha
      rw [Forest.childrenAt, if_neg (ne_of_mem_of_not_mem hin hbc).symm, if_pos hin]
      exact ihc hc.nested hnc ha
    · have hin : key a ∈ bs.toList.map key := List.mem_map_of_mem ha
      rw [Forest.childrenAt, if_neg (ne_of_mem_of_not_mem hin hbb).symm,
        if_neg fun h => hdis _ h hin]
      exact ihb hb hnb ha

/-- The change keeps the node's link and key, and its new children are below it. -/
def Renests (up key : α → κ) (a : α) (g : α → Forest α → α × Forest α) : Prop :=
  ∀ cs, Under up key (key a) cs →
    up (g a cs).1 = up a ∧ key (g a cs).1 = key a ∧ Under up key (key a) (g a cs).2

theorem under_splice {k : κ} {g : α → Forest α → α × Forest α} {t : Forest α} :
    ∀ {parent : κ}, (∀ a ∈ t.toList, key a = k → Renests up key a g) →
      Under up key parent t → Under up key parent (t.splice key k g) := by
  induction t with
  | nil => intro _ _ h; exact h
  | node a cs bs ihc ihb =>
    intro parent hg h
    obtain ⟨hup, hc, hb⟩ := h
    by_cases heq : key a = k
    · obtain ⟨hu, hk, hl⟩ := hg a List.mem_cons_self heq cs hc
      rw [Forest.splice, if_pos heq]
      exact ⟨hu.trans hup, by rwa [hk], hb⟩
    · rw [Forest.splice, if_neg heq]
      refine ⟨hup, ihc (fun x hx => hg x ?_) hc, ihb (fun x hx => hg x ?_) hb⟩
      · exact List.mem_cons_of_mem _ (List.mem_append_left _ hx)
      · exact List.mem_cons_of_mem _ (List.mem_append_right _ hx)

/-- **A change of one node** keeps the links upwards. -/
theorem nested_splice {k : κ} {g : α → Forest α → α × Forest α} {t : Forest α}
    (hg : ∀ a ∈ t.toList, key a = k → Renests up key a g) (h : Nested up key t) :
    Nested up key (t.splice key k g) := by
  induction t with
  | nil => exact h
  | node a cs bs ihc ihb =>
    obtain ⟨hc, hb⟩ := h
    by_cases heq : key a = k
    · obtain ⟨-, hk, hl⟩ := hg a List.mem_cons_self heq cs hc
      rw [Forest.splice, if_pos heq]
      exact ⟨by rwa [hk], hb⟩
    · rw [Forest.splice, if_neg heq]
      exact ⟨under_splice (fun x hx =>
          hg x (List.mem_cons_of_mem _ (List.mem_append_left _ hx))) hc,
        ihb (fun x hx => hg x (List.mem_cons_of_mem _ (List.mem_append_right _ hx))) hb⟩

theorem under_remove {k : κ} {t : Forest α} :
    ∀ {parent : κ}, Under up key parent t → Under up key parent (t.remove key k) := by
  induction t with
  | nil => intro _ h; exact h
  | node a cs bs ihc ihb =>
    intro parent h
    rw [Forest.remove]
    split
    · exact h.2.2
    · exact ⟨h.1, ihc h.2.1, ihb h.2.2⟩

theorem nested_remove {k : κ} {t : Forest α} (h : Nested up key t) :
    Nested up key (t.remove key k) := by
  induction t with
  | nil => exact h
  | node a cs bs _ ihb =>
    rw [Forest.remove]
    split
    · exact h.2
    · exact ⟨under_remove h.1, ihb h.2⟩

/-- **A tree that is put under another node** has that node's key for a link. -/
theorem nested_graft {parent : κ} {g : α → α → α × α} {t : Forest α} {a : α}
    (h : Nested up key t) (hnd : (t.toList.map key).Nodup) (ha : a ∈ t.toList)
    (hg : ∀ b ∈ t.toList, key b = parent → up (g a b).1 = key b ∧ key (g a b).1 = key a ∧
      up (g a b).2 = up b ∧ key (g a b).2 = key b) :
    Nested up key (t.graft key (key a) parent g) := by
  rw [Forest.graft_eq hnd ha]
  refine nested_splice (fun b hb hbk bs hbs => ?_) (nested_remove h)
  obtain ⟨rest, hold, hrest, -⟩ := Forest.split_at hnd ha
  obtain ⟨h₁, h₂, h₃, h₄⟩ := hg b (hold.mem_iff.mpr
    (List.mem_cons_of_mem _ (List.mem_append_right _ (hrest.mem_iff.mp hb)))) hbk
  refine ⟨h₃, h₄, h₁, ?_, hbs⟩
  rw [h₂]
  exact nested_childrenAt h hnd ha

end Upwards

/-! ## Section 5: Chains of brothers -/

section Brothers

variable {κ : Type} [DecidableEq κ] {key : α → κ}

/-- Every node is without a parent, or among the children of exactly one node. -/
theorem exists_parent {t : Forest α} {a : α} (hnd : (t.toList.map key).Nodup) (ha : a ∈ t.toList)
    (hroot : a ∉ t.roots) : ∃ b ∈ t.toList, a ∈ (t.childrenAt key (key b)).roots := by
  induction t with
  | nil => cases ha
  | node c cs bs ihc ihb =>
    obtain ⟨hcc, hcb, hnc, hnb, hdis⟩ := Forest.nodup_node hnd
    rw [Forest.roots, List.mem_cons, not_or] at hroot
    rw [Forest.toList_node, List.mem_cons, List.mem_append] at ha
    rcases ha with rfl | ha | ha
    · exact absurd rfl hroot.1
    · by_cases hin : a ∈ cs.roots
      · exact ⟨c, List.mem_cons_self, by rwa [Forest.childrenAt, if_pos rfl]⟩
      · obtain ⟨b, hb, hab⟩ := ihc hnc ha hin
        have hkey : key b ∈ cs.toList.map key := List.mem_map_of_mem hb
        refine ⟨b, List.mem_cons_of_mem _ (List.mem_append_left _ hb), ?_⟩
        rwa [Forest.childrenAt, if_neg (ne_of_mem_of_not_mem hkey hcc).symm, if_pos hkey]
    · obtain ⟨b, hb, hab⟩ := ihb hnb ha hroot.2
      have hkey : key b ∈ bs.toList.map key := List.mem_map_of_mem hb
      refine ⟨b, List.mem_cons_of_mem _ (List.mem_append_right _ hb), ?_⟩
      rwa [Forest.childrenAt, if_neg (ne_of_mem_of_not_mem hkey hcb).symm,
        if_neg fun h => hdis _ h hkey]

theorem childrenAt_subset {k : κ} {t : Forest α} {a : α} (ha : a ∈ (t.childrenAt key k).toList) :
    a ∈ t.toList := by
  induction t with
  | nil => cases ha
  | node b cs bs ihc ihb =>
    rw [Forest.childrenAt] at ha
    rw [Forest.toList_node, List.mem_cons, List.mem_append]
    split at ha
    · exact Or.inr (Or.inl ha)
    · split at ha
      · exact Or.inr (Or.inl (ihc ha))
      · exact Or.inr (Or.inr (ihb ha))

/-- A node without a parent is below no node. -/
theorem roots_notMem {k : κ} {t : Forest α} {a : α} (hnd : (t.toList.map key).Nodup)
    (ha : a ∈ t.roots) : a ∉ (t.childrenAt key k).toList := by
  induction t with
  | nil => cases ha
  | node b cs bs _ ihb =>
    obtain ⟨hbc, hbb, -, hnb, hdis⟩ := Forest.nodup_node hnd
    have hcs : a ∉ cs.toList := by
      intro hin
      rcases List.mem_cons.mp ha with rfl | ha
      · exact hbc (List.mem_map_of_mem hin)
      · exact hdis _ (List.mem_map_of_mem hin) (List.mem_map_of_mem (Forest.roots_subset ha))
    intro hin
    rw [Forest.childrenAt] at hin
    split at hin
    · exact hcs hin
    · split at hin
      · exact hcs (childrenAt_subset hin)
      · rcases List.mem_cons.mp ha with rfl | ha
        · exact hbb (List.mem_map_of_mem (childrenAt_subset hin))
        · exact ihb hnb ha hin

end Brothers

/-! ## Section 6: Walks that pass over trees -/

section Descent

variable (ok : α → Prop) [DecidablePred ok]

/-- What a walk reaches that goes into the nodes with `ok` only. -/
def Forest.descend : Forest α → List α
  | .nil => []
  | .node a cs bs => (if ok a then a :: cs.descend else []) ++ bs.descend

/-- What such a walk passes over: the trees of the first nodes without `ok`. -/
def Forest.passed : Forest α → List α
  | .nil => []
  | .node a cs bs => (if ok a then cs.passed else a :: cs.toList) ++ bs.passed

variable {ok}

/-- **Every node is reached or passed over**, and not both. -/
theorem descend_perm (t : Forest α) : t.toList.Perm (t.descend ok ++ t.passed ok) := by
  induction t with
  | nil => exact List.Perm.refl _
  | node a cs bs ihc ihb =>
    have hjoin : ∀ {l x y : List α}, l.Perm (x ++ y) →
        (l ++ bs.toList).Perm ((x ++ bs.descend ok) ++ (y ++ bs.passed ok)) := by
      intro l x y hl
      refine (hl.append ihb).trans ?_
      rw [List.append_assoc, List.append_assoc]
      refine List.Perm.append_left x ?_
      rw [← List.append_assoc, ← List.append_assoc]
      exact List.perm_append_comm.append_right _
    rw [Forest.toList_node, Forest.descend, Forest.passed, ← List.cons_append]
    split
    · exact hjoin (ihc.cons a)
    · exact hjoin (List.Perm.refl _)

theorem descend_subset {t : Forest α} : t.descend ok ⊆ t.toList :=
  fun _ ha => (descend_perm t).mem_iff.mpr (List.mem_append_left _ ha)

theorem descend_map {f : α → β} {ok' : β → Prop} [DecidablePred ok'] (t : Forest α)
    (hok : ∀ a ∈ t.toList, ok' (f a) ↔ ok a) :
    (t.map f).descend ok' = (t.descend ok).map f := by
  induction t with
  | nil => rfl
  | node a cs bs ihc ihb =>
    simp only [Forest.toList_node, List.mem_cons, List.mem_append] at hok
    rw [Forest.map, Forest.descend, Forest.descend, ihc fun b hb => hok b (Or.inr (Or.inl hb)),
      ihb fun b hb => hok b (Or.inr (Or.inr hb)), List.map_append]
    simp only [hok a (Or.inl rfl)]
    split <;> rfl

end Descent

end Spr.Forests
