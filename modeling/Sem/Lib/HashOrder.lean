import Mathlib.Data.Finset.Insert
import Mathlib.Data.Finset.Dedup
import Sem.Lib.Table

/-!
# Tables in an order that is not known

A hash table may put a new entry anywhere, and when it grows all others may come to stand elsewhere.
`HashOrder` is what an implementation does with the entries then. Values are changed, and entries
erased, where they are.

* `lookup_place`: what is found does not depend on the order.
* `values_place_perm`, `toFinset_keys_place`: what stands in the table, in some order.
-/

namespace Sem

/-- The order in which the entries of a table stand after a new one has come, the newest of which is
the first of the list. -/
class HashOrder where
  arrange : ∀ {K V : Type}, List (Sigma fun _ : K => V) → List (Sigma fun _ : K => V)
  perm_arrange : ∀ {K V : Type} (entries : List (Sigma fun _ : K => V)),
    (arrange entries).Perm entries

/-- New entries come to stand before the others. -/
@[reducible] def HashOrder.newestFirst : HashOrder := ⟨fun entries => entries, fun _ => .refl _⟩

namespace Table

variable [HashOrder] {K V : Type} [DecidableEq K]

/-- A new entry, wherever it comes to stand. -/
def place (t : Table K V) (k : K) (v : V) : Table K V where
  entries := HashOrder.arrange (t.insert k v).entries
  nodupKeys := (List.perm_nodupKeys (HashOrder.perm_arrange _)).mpr (t.insert k v).nodupKeys

variable {t : Table K V} {k : K}

theorem entries_place_perm (t : Table K V) (k : K) (v : V) :
    (t.place k v).entries.Perm (t.insert k v).entries := HashOrder.perm_arrange _

theorem lookup_place (t : Table K V) (k k' : K) (v : V) :
    (t.place k v).lookup k' = if k' = k then some v else t.lookup k' := by
  rw [AList.perm_lookup (entries_place_perm t k v), lookup_insert]

theorem mem_place {k' : K} {v : V} : k' ∈ t.place k v ↔ k' = k ∨ k' ∈ t := by
  rw [AList.mem_of_perm (entries_place_perm t k v), AList.mem_insert]

theorem values_place_perm_insert (t : Table K V) (k : K) (v : V) :
    (t.place k v).values.Perm (values (t.insert k v)) :=
  (entries_place_perm t k v).map _

theorem values_place_perm (h : k ∉ t) (v : V) : (t.place k v).values.Perm (v :: t.values) := by
  rw [← values_insert h]
  exact values_place_perm_insert t k v

theorem flatMap_place_perm {β : Type} (h : k ∉ t) (v : V) (g : V → List β) :
    ((t.place k v).values.flatMap g).Perm (g v ++ t.values.flatMap g) := by
  rw [← List.flatMap_cons]
  exact (values_place_perm h v).flatMap_right g

theorem toFinset_keys_place (t : Table K V) (k : K) (v : V) :
    (t.place k v).keys.toFinset = insert k t.keys.toFinset := by
  ext k'
  simp only [Finset.mem_insert, List.mem_toFinset, ← AList.mem_keys, mem_place]

theorem Entries.place {P : K → V → Prop} {v : V} (h : Entries t P) (hkv : P k v) :
    Entries (t.place k v) P := by
  intro k' v' hlookup
  rw [lookup_place] at hlookup
  split at hlookup
  · next heq =>
    cases hlookup
    exact heq ▸ hkv
  · exact h k' v' hlookup

end Table

end Sem
