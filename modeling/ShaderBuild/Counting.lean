/-!
# Counting

A class that lies inside another one and misses one of its members has fewer members. Walks and
visits end because of that.
-/

namespace ShaderBuild

/-- A narrower class that misses a member of the wider one has fewer members in a list. -/
theorem countP_lt_countP {p q : α → Bool} {l : List α} (sub : ∀ a, q a = true → p a = true)
    {a : α} (mem : a ∈ l) (hp : p a = true) (hq : q a = false) : l.countP q < l.countP p := by
  induction l with
  | nil => cases mem
  | cons b l ih =>
    have hle : l.countP q ≤ l.countP p := List.countP_mono_left fun c _ => sub c
    rw [List.countP_cons, List.countP_cons]
    rcases List.mem_cons.1 mem with rfl | mem
    · simp only [hp, hq, Bool.false_eq_true, if_false, if_true]
      omega
    · have hlt := ih mem
      cases hb : q b with
      | true => rw [sub b hb]; omega
      | false => cases p b <;> simp <;> omega

end ShaderBuild
