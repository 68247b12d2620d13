import BuildScript.Yaml.Node
import BuildScript.Proofs.Settings.Merge
/-!
# What a text can hold

Every mapping that is read from a text is put together from pairs, of which the last one under a key
counts. So whatever is read holds one value for each key, at every depth.

Results:
* `proper_value`: a node stands for a proper value.
* `proper_of_read`: so does a text.
-/
namespace BuildScript.Yaml

theorem isScalar_of_plainValue {s : Text} {v : Value} (h : plainValue s = .ok v) :
    v.key?.isSome = true := by
  unfold plainValue at h
  split at h
  · cases h
    rfl
  · split at h
    · cases h
      rfl
    · split at h
      · cases h
        rfl
      · split at h
        · next n _ =>
          cases n with
          | error fault => cases h
          | ok n =>
            cases h
            rfl
        · split at h
          · cases h
            rfl
          · split at h
            · split at h
              · cases h
                rfl
              · cases h
            · cases h
              rfl

namespace Node

theorem isScalar_of_scalarValue {text : Text} {plain : Bool} {v : Value}
    (h : scalarValue text plain = .ok v) : v.key?.isSome = true := by
  unfold scalarValue at h
  split at h
  · cases h
    rfl
  · split at h
    · cases h
    · exact isScalar_of_plainValue h

theorem both_eq_ok_iff {α β : Type} {a : Valued α} {b : Valued β} {p : α × β} :
    both a b = .ok p ↔ a = .ok p.1 ∧ b = .ok p.2 := by
  obtain ⟨x, y⟩ := p
  cases a <;> cases b <;> simp [both]

theorem map_eq_ok_iff {ε α β : Type} {f : α → β} {a : Except ε α} {b : β} :
    a.map f = .ok b ↔ ∃ x, a = .ok x ∧ f x = b := by
  cases a <;> simp [Except.map]

mutual

/-- A node stands for a proper value. -/
theorem proper_value (depth : Nat) :
    (node : Node) → ∀ v, value depth node = .ok v → v.Proper
  | .scalar text plain, v, h => by
    rw [value] at h
    cases hs : scalarValue text plain with
    | error fault =>
      rw [hs] at h
      cases h
    | ok w =>
      rw [hs] at h
      cases h
      exact .scalar (isScalar_of_scalarValue hs)
  | .sequence items, v, h => by
    rw [value] at h
    obtain ⟨vs, hvs, rfl⟩ := map_eq_ok_iff.1 h
    exact .list (proper_values (depth + 1) items vs hvs)
  | .mapping fields, v, h => by
    rw [value] at h
    obtain ⟨ps, hps, rfl⟩ := map_eq_ok_iff.1 h
    exact Value.proper_ofPairs (proper_pairs (depth + 1) fields ps hps)

theorem proper_values (depth : Nat) :
    (items : List Node) → ∀ vs, values depth items = .ok vs → ∀ v ∈ vs, v.Proper
  | [], vs, h => by
    rw [values] at h
    cases h
    intro v hv
    cases hv
  | item :: rest, vs, h => by
    rw [values] at h
    obtain ⟨⟨w, ws⟩, hboth, rfl⟩ := map_eq_ok_iff.1 h
    obtain ⟨hw, hws⟩ := both_eq_ok_iff.1 hboth
    intro v hv
    rcases List.mem_cons.1 hv with rfl | hv
    · exact proper_value depth item _ hw
    · exact proper_values depth rest ws hws v hv

theorem proper_pairs (depth : Nat) (fields : List (Node × Node)) (ps : List (Key × Value))
    (h : pairs depth fields = .ok ps) : ∀ p ∈ ps, p.2.Proper := by
  rw [pairs] at h
  obtain ⟨⟨merged, own⟩, hboth, rfl⟩ := map_eq_ok_iff.1 h
  obtain ⟨hmerged, hown⟩ := both_eq_ok_iff.1 hboth
  intro p hp
  rcases List.mem_append.1 hp with hp | hp
  · exact proper_mergedPairs depth fields merged hmerged p hp
  · exact proper_ownPairs depth fields own hown p hp

theorem proper_mergedPairs (depth : Nat) :
    (fields : List (Node × Node)) → ∀ ps, mergedPairs depth fields = .ok ps → ∀ p ∈ ps, p.2.Proper
  | [], ps, h => by
    rw [mergedPairs] at h
    cases h
    intro p hp
    cases hp
  | (key, node) :: rest, ps, h => by
    rw [mergedPairs.eq_def] at h
    dsimp only at h
    split at h
    · obtain ⟨⟨first, others⟩, hboth, rfl⟩ := map_eq_ok_iff.1 h
      obtain ⟨hfirst, hothers⟩ := both_eq_ok_iff.1 hboth
      intro p hp
      rcases List.mem_append.1 hp with hp | hp
      · cases node with
        | scalar text plain => cases hfirst
        | sequence items =>
          obtain ⟨lists, hlists, rfl⟩ := map_eq_ok_iff.1 hfirst
          obtain ⟨list, hlist, hp⟩ := List.mem_flatten.1 hp
          exact proper_itemPairs depth items lists hlists list (List.mem_reverse.1 hlist) p hp
        | mapping fields => exact proper_pairs depth fields first hfirst p hp
      · exact proper_mergedPairs depth rest others hothers p hp
    · exact proper_mergedPairs depth rest ps h

theorem proper_itemPairs (depth : Nat) :
    (items : List Node) → ∀ lists, itemPairs depth items = .ok lists →
      ∀ list ∈ lists, ∀ p ∈ list, p.2.Proper
  | [], lists, h => by
    rw [itemPairs] at h
    cases h
    intro list hlist
    cases hlist
  | item :: rest, lists, h => by
    rw [itemPairs.eq_def] at h
    dsimp only at h
    obtain ⟨⟨first, others⟩, hboth, rfl⟩ := map_eq_ok_iff.1 h
    obtain ⟨hfirst, hothers⟩ := both_eq_ok_iff.1 hboth
    intro list hlist
    rcases List.mem_cons.1 hlist with rfl | hlist
    · cases item with
      | scalar text plain => cases hfirst
      | sequence items => cases hfirst
      | mapping fields => exact proper_pairs depth fields _ hfirst
    · exact proper_itemPairs depth rest others hothers list hlist

theorem proper_ownPairs (depth : Nat) :
    (fields : List (Node × Node)) → ∀ ps, ownPairs depth fields = .ok ps → ∀ p ∈ ps, p.2.Proper
  | [], ps, h => by
    rw [ownPairs] at h
    cases h
    intro p hp
    cases hp
  | (key, node) :: rest, ps, h => by
    rw [ownPairs] at h
    split at h
    · exact proper_ownPairs depth rest ps h
    · obtain ⟨⟨pair, others⟩, hboth, rfl⟩ := map_eq_ok_iff.1 h
      obtain ⟨hpair, hothers⟩ := both_eq_ok_iff.1 hboth
      intro p hp
      rcases List.mem_cons.1 hp with rfl | hp
      · exact proper_value depth node _ (both_eq_ok_iff.1 hpair).2
      · exact proper_ownPairs depth rest others hothers p hp

end

end Node

/-- What is read from a text holds one value for each key, at every depth. -/
theorem proper_of_read {text : Text} {v : Value} (h : read text = .ok v) : v.Proper := by
  unfold read at h
  cases htokens : Node.ofTokens (tokens text) with
  | error fault =>
    rw [htokens] at h
    cases h
  | ok node =>
    rw [htokens] at h
    cases node with
    | none =>
      cases h
      exact .scalar rfl
    | some node =>
      change (node.value 0).mapError _ = .ok v at h
      cases hvalue : node.value 0 with
      | error ranked =>
        rw [hvalue] at h
        cases h
      | ok w =>
        rw [hvalue] at h
        cases h
        exact Node.proper_value 0 node _ hvalue

end BuildScript.Yaml
