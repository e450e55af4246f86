import Mathlib.Data.List.Basic
import Mathlib.Tactic.Common

/-! Values as trees: arrays of values, objects with values under keys, and leaves. A walk rebuilds a
tree from what it makes of each leaf and of the key above it. Keys may be passed over, and a leaf
may come to nothing, which leaves out its entry of an object and leaves a hole in an array. -/

namespace Livora.ValueTrees

universe u v

inductive Tree (κ : Type u) (L : Type v) where
  | leaf (a : L)
  | array (items : List (Tree κ L))
  | object (entries : List (κ × Tree κ L))

namespace Tree

variable {κ : Type u} {L M N : Type v}

@[elab_as_elim]
theorem induct {motive : Tree κ L → Prop} (leaf : ∀ a, motive (.leaf a))
    (array : ∀ items, (∀ t ∈ items, motive t) → motive (.array items))
    (object : ∀ entries, (∀ entry ∈ entries, motive entry.2) → motive (.object entries))
    (t : Tree κ L) :
    motive t :=
  @Tree.rec κ L motive (fun items => ∀ t ∈ items, motive t) (fun entries => ∀ entry ∈ entries,
    motive entry.2)
    (fun entry => motive entry.2) leaf array object
    (fun _ h => absurd h List.not_mem_nil) (fun _ _ ht hitems =>
      List.forall_mem_cons.mpr ⟨ht, hitems⟩)
    (fun _ h => absurd h List.not_mem_nil) (fun _ _ he hentries =>
      List.forall_mem_cons.mpr ⟨he, hentries⟩)
    (fun _ _ ht => ht) t

section Walk

variable (keep : κ → Bool) (hole : Tree κ M) (f : Option κ → L → Option (Tree κ M))

mutual

/-- The walk of a value, under a key or under none. -/
def walk (k : Option κ) : Tree κ L → Option (Tree κ M)
  | .leaf a => f k a
  | .array items => some (.array (walkItems items))
  | .object entries => some (.object (walkEntries entries))

def walkItems : List (Tree κ L) → List (Tree κ M)
  | [] => []
  | t :: items => (walk none t).getD hole :: walkItems items

def walkEntries : List (κ × Tree κ L) → List (κ × Tree κ M)
  | [] => []
  | (key, t) :: entries =>
    if keep key then ((walk (some key) t).map fun u => (key, u)).toList ++ walkEntries entries
    else walkEntries entries

end

end Walk

section Parts

variable (keep : κ → Bool)

mutual

/-- The leaves that a walk comes to, with their keys. -/
def leaves (k : Option κ) : Tree κ L → List (Option κ × L)
  | .leaf a => [(k, a)]
  | .array items => itemLeaves items
  | .object entries => entryLeaves entries

def itemLeaves : List (Tree κ L) → List (Option κ × L)
  | [] => []
  | t :: items => leaves none t ++ itemLeaves items

def entryLeaves : List (κ × Tree κ L) → List (Option κ × L)
  | [] => []
  | (key, t) :: entries =>
    if keep key then leaves (some key) t ++ entryLeaves entries else entryLeaves entries

end

mutual

def keys : Tree κ L → List κ
  | .leaf _ => []
  | .array items => itemKeys items
  | .object entries => entryKeys entries

def itemKeys : List (Tree κ L) → List κ
  | [] => []
  | t :: items => keys t ++ itemKeys items

def entryKeys : List (κ × Tree κ L) → List κ
  | [] => []
  | (key, t) :: entries =>
    if keep key then key :: (keys t ++ entryKeys entries) else entryKeys entries

end

end Parts

/-! ### One walk after another -/

section Compose

variable (keep keep' : κ → Bool) (hole : Tree κ M) (hole' : Tree κ N)
    (f : Option κ → L → Option (Tree κ M))
  (g : Option κ → M → Option (Tree κ N))

theorem walkEntries_append (es es' : List (κ × Tree κ L)) :
    walkEntries keep hole f (es ++ es') = walkEntries keep hole f es ++
      walkEntries keep hole f es' := by
  induction es with
  | nil => rfl
  | cons e es ih =>
    obtain ⟨key, t⟩ := e
    rw [List.cons_append, walkEntries, walkEntries, ih]
    split
    · rw [List.append_assoc]
    · rfl

/-- Two walks are one, if the second leaves the holes of the first as its own. -/
theorem walk_walk (hhole : (walk keep' hole' g none hole).getD hole' = hole') (k : Option κ)
    (t : Tree κ L) :
    (walk keep hole f k t).bind (walk keep' hole' g k) =
      walk (fun key => keep key && keep' key) hole' (fun k a =>
        (f k a).bind (walk keep' hole' g k)) k t := by
  induction t using induct generalizing k with
  | leaf a => rfl
  | array items ih =>
    have hitems : walkItems keep' hole' g (walkItems keep hole f items) =
        walkItems (fun key => keep key && keep' key) hole'
          (fun k a => (f k a).bind (walk keep' hole' g k)) items := by
      induction items with
      | nil => rfl
      | cons t items ihitems =>
        have ht := ih t List.mem_cons_self none
        rw [walkItems, walkItems, walkItems, ihitems fun t ht =>
          ih t (List.mem_cons_of_mem _ ht), ← ht]
        cases walk keep hole f none t with
        | none => rw [Option.getD_none, hhole, Option.bind_none, Option.getD_none]
        | some u => rfl
    simp only [walk, Option.bind_some, hitems]
  | object entries ih =>
    have hentries : walkEntries keep' hole' g (walkEntries keep hole f entries) =
        walkEntries (fun key => keep key && keep' key) hole'
          (fun k a => (f k a).bind (walk keep' hole' g k)) entries := by
      induction entries with
      | nil => rfl
      | cons e entries ihentries =>
        obtain ⟨key, t⟩ := e
        have ht := ih (key, t) List.mem_cons_self (some key)
        have hrest := ihentries fun e he => ih e (List.mem_cons_of_mem _ he)
        rw [walkEntries, walkEntries, ← ht]
        cases hkeep : keep key with
        | false => simpa using hrest
        | true =>
          rw [if_pos rfl, walkEntries_append, hrest]
          cases walk keep hole f (some key) t with
          | none => simp [walkEntries]
          | some u =>
            simp only [Option.map_some, Option.toList_some, walkEntries, List.append_nil,
              Bool.true_and, Option.bind_some]
            split <;> rfl
    simp only [walk, Option.bind_some, hentries]

end Compose

/-! ### Two walks of one tree -/

section Compare

variable {keep keep' : κ → Bool} {hole : Tree κ M} {f f' : Option κ → L → Option (Tree κ M)}

theorem getD_eq_getD_iff {o o' : Option M} {a : M} (h : o.isSome = o'.isSome) :
    o.getD a = o'.getD a ↔ o = o' := by
  cases o <;> cases o' <;> simp_all

theorem isSome_walk (keep keep' : κ → Bool) (hole : Tree κ M)
    (hsome : ∀ k a, (f k a).isSome = (f' k a).isSome)
    (k : Option κ) (t : Tree κ L) :
    (walk keep hole f k t).isSome = (walk keep' hole f' k t).isSome := by
  cases t with
  | leaf a => exact hsome k a
  | array items => rfl
  | object entries => rfl

theorem entry_append_iff (key : κ) {o o' : Option M} (h : o.isSome = o'.isSome)
    (es es' : List (κ × M)) :
    (o.map fun u => (key, u)).toList ++ es = (o'.map fun u => (key, u)).toList ++ es' ↔ o = o' ∧
      es = es' := by
  cases o <;> cases o' <;> simp_all

theorem length_walkEntries_le (hole : Tree κ M) (hkeep : ∀ key, keep key = true → keep' key = true)
    (hsome : ∀ k a, (f k a).isSome = (f' k a).isSome) (entries : List (κ × Tree κ L)) :
    (walkEntries keep hole f entries).length ≤ (walkEntries keep' hole f' entries).length := by
  induction entries with
  | nil => exact Nat.le_refl _
  | cons e entries ih =>
    obtain ⟨key, t⟩ := e
    have hhead : ((walk keep hole f (some key) t).map fun u => (key, u)).toList.length =
        ((walk keep' hole f' (some key) t).map fun u => (key, u)).toList.length := by
      have ht := isSome_walk keep keep' hole hsome (some key) t
      cases h : walk keep hole f (some key) t <;> cases h' : walk keep' hole f' (some key) t
        <;> simp_all
    rw [walkEntries, walkEntries]
    cases hk : keep key with
    | true =>
      rw [if_pos rfl, if_pos (hkeep key hk), List.length_append, List.length_append, hhead]
      exact Nat.add_le_add_left ih _
    | false =>
      rw [if_neg Bool.false_ne_true]
      split
      · rw [List.length_append]
        exact Nat.le_trans ih (Nat.le_add_left _ _)
      · exact ih

/-- Two walks come to the same where they do on every leaf and the one passes no key over that the
other keeps. -/
theorem walk_eq_walk_iff (hkeep : ∀ key, keep key = true → keep' key = true)
    (hsome : ∀ k a, (f k a).isSome = (f' k a).isSome)
    (hlost : ∀ key, keep key = false → keep' key = true → ∀ k a, (f' k a).isSome = true)
    (k : Option κ) (t : Tree κ L) :
    walk keep hole f k t = walk keep' hole f' k t ↔
      (∀ key ∈ keys keep' t, keep key = true) ∧ ∀ p ∈ leaves keep' k t, f p.1 p.2 = f' p.1 p.2 := by
  induction t using induct generalizing k with
  | leaf a => simp [walk, keys, leaves]
  | array items ih =>
    have hitems : walkItems keep hole f items = walkItems keep' hole f' items ↔
        (∀ key ∈ itemKeys keep' items, keep key = true) ∧
          ∀ p ∈ itemLeaves keep' items, f p.1 p.2 = f' p.1 p.2 := by
      induction items with
      | nil => simp [walkItems, itemKeys, itemLeaves]
      | cons t items ihitems =>
        have hrest := ihitems fun t ht => ih t (List.mem_cons_of_mem _ ht)
        rw [walkItems, walkItems, List.cons.injEq,
          getD_eq_getD_iff (isSome_walk keep keep' hole hsome none t),
          ih t List.mem_cons_self none, hrest, itemKeys, itemLeaves, List.forall_mem_append,
            List.forall_mem_append]
        exact and_and_and_comm
    simpa [walk, keys, leaves] using hitems
  | object entries ih =>
    have hentries : walkEntries keep hole f entries = walkEntries keep' hole f' entries ↔
        (∀ key ∈ entryKeys keep' entries, keep key = true) ∧
          ∀ p ∈ entryLeaves keep' entries, f p.1 p.2 = f' p.1 p.2 := by
      induction entries with
      | nil => simp [walkEntries, entryKeys, entryLeaves]
      | cons e entries ihentries =>
        obtain ⟨key, t⟩ := e
        have ht := ih (key, t) List.mem_cons_self (some key)
        have hrest := ihentries fun e he => ih e (List.mem_cons_of_mem _ he)
        rw [walkEntries, walkEntries, entryKeys, entryLeaves]
        cases hk' : keep' key with
        | false =>
          have hk : keep key = false := by
            by_contra hk
            rw [hkeep key (Bool.of_not_eq_false hk)] at hk'
            cases hk'
          simpa [hk] using hrest
        | true =>
          rw [if_pos rfl, if_pos rfl, if_pos rfl, List.forall_mem_cons, List.forall_mem_append,
            List.forall_mem_append]
          cases hk : keep key with
          | false =>
            -- the other walk makes one entry more
            refine iff_of_false ?_ fun h => Bool.false_ne_true h.1.1
            obtain ⟨u, hu⟩ : ∃ u, walk keep' hole f' (some key) t = some u := by
              cases t with
              | leaf a => exact Option.isSome_iff_exists.mp (hlost key hk hk' (some key) a)
              | array items => exact ⟨_, rfl⟩
              | object entries => exact ⟨_, rfl⟩
            rw [if_neg Bool.false_ne_true, hu]
            intro he
            have hlength := congrArg List.length he
            have hle := length_walkEntries_le hole hkeep hsome entries
            simp at hlength
            omega
          | true =>
            have hsplit := entry_append_iff key (isSome_walk keep keep' hole hsome (some key) t)
              (walkEntries keep hole f entries) (walkEntries keep' hole f' entries)
            rw [if_pos rfl, hsplit, ht, hrest, and_and_and_comm, and_iff_right rfl]
    simpa [walk, keys, leaves] using hentries

end Compare

theorem keep_of_mem_keys {keep : κ → Bool} {t : Tree κ L} {key : κ} (h : key ∈ keys keep t) :
    keep key = true := by
  induction t using induct with
  | leaf a => cases h
  | array items ih =>
    have hitems : key ∈ itemKeys keep items → keep key = true := by
      clear h
      induction items with
      | nil => exact fun h => absurd h List.not_mem_nil
      | cons t items ihitems =>
        intro h
        rcases List.mem_append.mp h with h | h
        · exact ih t List.mem_cons_self h
        · exact ihitems (fun t ht => ih t (List.mem_cons_of_mem _ ht)) h
    exact hitems h
  | object entries ih =>
    have hentries : key ∈ entryKeys keep entries → keep key = true := by
      clear h
      induction entries with
      | nil => exact fun h => absurd h List.not_mem_nil
      | cons e entries ihentries =>
        obtain ⟨name, t⟩ := e
        have hrest := ihentries fun e he => ih e (List.mem_cons_of_mem _ he)
        rw [entryKeys]
        intro h
        split at h
        · rename_i hname
          rcases List.mem_cons.mp h with rfl | h
          · exact hname
          rcases List.mem_append.mp h with h | h
          · exact ih (name, t) List.mem_cons_self h
          · exact hrest h
        · exact hrest h
    exact hentries h

end Tree

end Livora.ValueTrees
