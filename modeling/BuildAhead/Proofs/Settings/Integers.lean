import BuildAhead.Services.DiscoverySettings

set_option autoImplicit false

/-!
# Settings: integers within bounds

A key for an integer is read in one way everywhere: where it is not set a default counts, and the
text must otherwise write an integer within the bounds of the key.
-/

namespace BuildAhead

namespace Settings

variable {s : Settings} {key : String} {bounds : Int → Prop}

/-- If the key is set, its text writes an integer within bounds. -/
def Admits (s : Settings) (key : String) (bounds : Int → Prop) : Prop :=
  ∀ text, s.text? key = some text → ∃ n, parseInt? (Text.trim text) = some n ∧ bounds n

/-- Reading a key, with a default within the bounds, gives an integer within the bounds. -/
theorem admits_iff {default : Int} (hdefault : bounds default) :
    s.Admits key bounds ↔ ∃ n, s.int key default = .ok n ∧ bounds n := by
  unfold Admits int
  cases htext : s.text? key with
  | none => simp [hdefault]
  | some text =>
    simp only [Option.some.injEq, forall_eq']
    cases hparse : parseInt? (Text.trim text) with
    | none => simp
    | some n => simp

/-- What is read under a key and then checked for its bounds. -/
theorem exists_checked_iff {α : Type} {default : Int} {check : Int → Except BuildError α}
    (hdefault : bounds default) (hcheck : ∀ n, (∃ a, check n = .ok a) ↔ bounds n) :
    (∃ a, (s.int key default >>= check) = .ok a) ↔ s.Admits key bounds := by
  rw [admits_iff hdefault]
  cases s.int key default with
  | error e => simp [bind, Except.bind]
  | ok n => simpa [bind, Except.bind] using hcheck n

end Settings

/-- The settings of a discovery can be read when the maximal size is positive. -/
theorem DiscoverySettings.exists_ofSettings_iff {s : Settings} :
    (∃ settings, ofSettings s = .ok settings) ↔ s.Admits maxUnitSizeKey (0 < ·) := by
  refine Settings.exists_checked_iff (by decide) fun size => ?_
  by_cases hpositive : size ≤ 0
  · have hnot : ¬ 0 < size := by omega
    simp [hpositive, hnot, throw, throwThe, MonadExceptOf.throw, bind, Except.bind]
  · have hlt : 0 < size := by omega
    simp [hpositive, hlt, pure, Except.pure]

end BuildAhead
