import Mathlib
import QueryFederation.Engine.Basic
import QueryFederation.Proofs.Number.Rounding
import QueryFederation.Source.Scripted

/-!
# Asking sources again

A source is asked until it replies otherwise than by a lost connection, but at most once more than the settings allow to
ask it again. The last reply is the one that counts, be it an answer or a failure. Every attempt leaves its trace in the
session, and so does the pause before it: a quarter of a second longer from attempt to attempt, up to a second, and
never longer than there is time.
-/

namespace QueryFederation

namespace Double

variable {time : Double}

theorem isSpent_of_pos (h : (finite 0).lt time = true) : time.isSpent = false := by
  cases time with
  | finite q =>
    have hpos : (0 : Rat) < q :=
      Extended.strictMono_place.lt_iff_lt.mp ((lt_iff (finite_ne_nan 0) (finite_ne_nan q)).mp h)
    simp [isSpent, isNegative, isZero, hpos.not_gt, hpos.ne']
  | infinite negative =>
    cases negative with
    | true => cases h
    | false => rfl
  | nan | negativeZero => cases h

theorem smaller_ofRat_one {q : Rat} (h : 1 ≤ q) : (ofRat q).smaller (finite 1) = finite 1 := by
  rcases (one_le_ofRat h).lt_or_eq with habove | hone
  · rw [smaller, if_pos ((lt_iff (finite_ne_nan 1) (ofRat_ne_nan q)).mpr habove)]
  · have hexact : Extended.finite 1 = Extended.ofDouble (ofRat q) :=
      (Extended.place_eq_iff (Extended.ofDouble_ne_nan (finite_ne_nan 1))
        (Extended.ofDouble_ne_nan (ofRat_ne_nan q))).mp hone
    have hrounded : ofRat q = finite 1 := by
      generalize ofRat q = rounded at hexact
      cases rounded with
      | finite r => rw [Extended.finite.inj hexact]
      | nan | infinite | negativeZero => cases hexact
    rw [smaller, hrounded, ite_self]

end Double

namespace Attempts

variable {α : Type} {script : ℕ → Reply α} {time : Double}

/-- The pauses grow by quarters of a second, without rounding. -/
theorem pause_eq (time : Double) (attempt : ℕ) :
    pause time attempt = (Double.finite (min (attempt / 4) 1)).smaller time := by
  have hquarters : (Double.ofRat (attempt / 4)).smaller (.finite 1) = .finite (min (attempt / 4) 1) := by
    rcases lt_or_ge attempt 4 with hshort | hlong
    -- The quarters below a second are doubles themselves.
    · interval_cases attempt <;> decide +kernel
    · have hsecond : (1 : Rat) ≤ attempt / 4 := by
        rw [le_div_iff₀ (by norm_num), one_mul]
        exact_mod_cast hlong
      rw [Double.smaller_ofRat_one hsecond, min_eq_right hsecond]
  rw [pause, hquarters]

/-- A run ends at the first reply after which the source is not asked again, or with the last attempt it may make. -/
theorem run_eq {attempt further k : ℕ} (hbefore : ∀ i < k, (script (attempt + i)).isPassing = true)
    (hlast : k = further ∨ k < further ∧ (script (attempt + k)).isPassing = false) :
    run script time attempt further
      = { reply := script (attempt + k), count := k + 1, pauses := (List.range' attempt k).map (pause time) } := by
  -- The induction is on the attempts before the last; after the first of them the run goes on from the next one.
  induction k generalizing attempt further with
  | zero =>
    cases further with
    | zero => rfl
    | succ further =>
      have hfinal : (script attempt).isPassing = false := by
        obtain hnone | ⟨-, hfinal⟩ := hlast
        · cases hnone
        · exact hfinal
      simp [run, hfinal]
  | succ k ih =>
    obtain ⟨further, rfl⟩ : ∃ others, further = others + 1 := ⟨further - 1, by omega⟩
    have hpassing : (script attempt).isPassing = true := hbefore 0 (Nat.succ_pos k)
    have hshift : ∀ i, attempt + 1 + i = attempt + (i + 1) := fun i => Nat.add_right_comm attempt 1 i
    have hlater : run script time (attempt + 1) further = _ :=
      ih (fun i hi => hshift i ▸ hbefore (i + 1) (Nat.succ_lt_succ hi))
        (by simpa only [hshift, Nat.add_right_cancel_iff, Nat.add_lt_add_iff_right] using hlast)
    simp only [run, hpassing, if_true, hlater, hshift, List.range'_succ, List.map_cons]

/-- Where a script ends if a source is asked again so many times at most. -/
theorem exists_last (script : ℕ → Reply α) (further : ℕ) :
    ∃ k, (∀ i < k, (script i).isPassing = true)
      ∧ (k = further ∨ k < further ∧ (script k).isPassing = false) := by
  induction further with
  | zero => exact ⟨0, nofun, .inl rfl⟩
  | succ further ih =>
    obtain ⟨k, hbefore, rfl | ⟨hearlier, hfinal⟩⟩ := ih
    · cases hreply : (script k).isPassing with
      | false => exact ⟨k, hbefore, .inr ⟨Nat.lt_succ_self k, hreply⟩⟩
      | true => exact ⟨k + 1, Nat.forall_lt_succ_right.mpr ⟨hbefore, hreply⟩, .inl rfl⟩
    · exact ⟨k, hbefore, .inr ⟨Nat.lt_succ_of_lt hearlier, hfinal⟩⟩

/-- The position of the first reply after which a source is not asked again, counted from one. -/
noncomputable def firstFinal (script : ℕ → Reply α) : ℕ∞ :=
  ⨅ (i : ℕ) (_ : (script i).isPassing = false), (i + 1 : ℕ)

variable {k further : ℕ}

theorem le_firstFinal (hbefore : ∀ i < k, (script i).isPassing = true) : (k + 1 : ℕ) ≤ firstFinal script := by
  refine le_iInf₂ fun i hfinal => Nat.cast_le.mpr (Nat.succ_le_succ ?_)
  by_contra hearlier
  rw [hbefore i (not_le.mp hearlier)] at hfinal
  cases hfinal

/-- A source is asked up to the first final reply, unless the attempts are used up before. -/
theorem succ_eq_min_firstFinal (hbefore : ∀ i < k, (script i).isPassing = true)
    (hlast : k = further ∨ k < further ∧ (script k).isPassing = false) :
    ((k + 1 : ℕ) : ℕ∞) = min (firstFinal script) (further + 1 : ℕ) := by
  obtain rfl | ⟨hearlier, hfinal⟩ := hlast
  · exact (min_eq_right (le_firstFinal hbefore)).symm
  · have hposition : firstFinal script = (k + 1 : ℕ) := le_antisymm (iInf₂_le k hfinal) (le_firstFinal hbefore)
    rw [hposition, min_eq_left (Nat.cast_le.mpr (Nat.succ_le_succ hearlier.le))]

theorem exists_ofScript_eq (script : ℕ → Reply α) (further : ℕ) (htime : (Double.finite 0).lt time = true) :
    ∃ again : ℕ, ((again + 1 : ℕ) : ℕ∞) = min (firstFinal script) (further + 1 : ℕ) ∧
      ofScript (fun attempt => script (attempt - 1)) time further
        = { reply := script again, count := again + 1, pauses := (List.range' 1 again).map (pause time) } := by
  obtain ⟨again, hbefore, hlast⟩ := exists_last script further
  refine ⟨again, succ_eq_min_firstFinal hbefore hlast, ?_⟩
  rw [ofScript, Double.isSpent_of_pos htime, if_neg Bool.false_ne_true,
    run_eq (by simpa only [Nat.add_sub_cancel_left]) (by simpa only [Nat.add_sub_cancel_left]), Nat.add_sub_cancel_left]

end Attempts

/-! ### Requests to registered sources -/

namespace Registry

variable {α : Type} {id : String} {connector : Connector}

theorem ask_eq {r : Registry} (request : Request) (time : Double) (call : Connector → List Request → Reply α)
    (session : Session) (h : r.connectors.lookup id = some connector) :
    r.ask id request time call session
      = let attempts := Attempts.ofScript
          (fun attempt => call connector (session.askedOf id ++ List.replicate (attempt - 1) request)) time r.retries
        (attempts.reply.toExcept id request time, session.record id request attempts) := by
  have hfound : r.connector id = .ok connector := by rw [Registry.connector, find?, h]
  rw [ask, hfound]
  rfl

/--
A request is made up to the first reply that is no lost connection, but made again at most as often as the settings say,
and never if they say less than nothing. The last reply counts, be it an answer or a failure. Before a request is made
again there is a pause, of a quarter of a second for each attempt so far, but of no more than a second and no longer
than there is time.
-/
theorem ask_follows_script (s : Settings) (connectors : Entries Connector) (request : Request) {time : Double}
    (call : Connector → List Request → Reply α) (session : Session) (script : ℕ → Reply α)
    (hconnector : connectors.lookup id = some connector) (htime : (Double.finite 0).lt time = true)
    (hscript : ∀ i, call connector (session.askedOf id ++ List.replicate i request) = script i) :
    ∃ again : ℕ,
      ((again + 1 : ℕ) : ℕ∞) = min (Attempts.firstFinal script) ((max s.connectorRetries 0).toNat + 1 : ℕ) ∧
      ({ connectors, retries := s.retries } : Registry).ask id request time call session
        = ((script again).toExcept id request time,
          { asked := session.asked ++ List.replicate (again + 1) (id, request)
            pauses := session.pauses ++ (List.range' 1 again).map fun attempt : ℕ =>
              (Double.finite (min (attempt / 4) 1)).smaller time }) := by
  have hretries : (max s.connectorRetries 0).toNat = s.retries := by
    rw [Settings.retries]
    omega
  obtain ⟨again, hagain, hattempts⟩ := Attempts.exists_ofScript_eq script s.retries htime
  refine ⟨again, hretries ▸ hagain, ?_⟩
  rw [ask_eq request time call session hconnector]
  simp only [hscript, hattempts, Session.record]
  rw [funext (Attempts.pause_eq time)]

/-- A source of orders that loses its connection at the first two requests. -/
def lossyOrders : ScriptedSource :=
  { columns := [("orders", [])], failure := some (.told .connectionLost "gone", 2) }

/-- The third attempt has an answer, after pauses of a quarter and of half a second. -/
theorem tables_lossyOrders :
    (Double.finite 0).lt (.finite 10) = true ∧
      ({ connectors := [("shop", lossyOrders.connector)]
         retries := ({ connectorRetries := 3 } : Settings).retries } : Registry).tables "shop" (.finite 10) {}
        = (.ok ["orders"],
          { asked := List.replicate 3 ("shop", .tables), pauses := [.finite (1 / 4), .finite (1 / 2)] }) := by
  have htime : (Double.finite 0).lt (.finite 10) = true := by decide +kernel
  have hscript : ∀ i, lossyOrders.connector.tables ([] ++ List.replicate i .tables)
      = if i < 2 then .failure (.told .connectionLost "gone") else .answer ["orders"] := fun i => by
    have hcounted : ((List.replicate i Request.tables).filter ScriptedSource.counts).length = i := by
      rw [List.filter_replicate_of_pos rfl, List.length_replicate]
    change lossyOrders.reply (List.replicate i .tables) (.answer ["orders"]) = _
    simp only [ScriptedSource.reply, lossyOrders, hcounted]
  obtain ⟨again, hagain, hask⟩ := ask_follows_script { connectorRetries := 3 } [("shop", lossyOrders.connector)] .tables
    (fun c earlier => c.tables earlier) {} _ (List.lookup_cons_self ..) htime hscript
  have hthird : ((2 + 1 : ℕ) : ℕ∞) = (again + 1 : ℕ) :=
    (Attempts.succ_eq_min_firstFinal (by decide) (.inr ⟨by decide, rfl⟩)).trans hagain.symm
  obtain rfl : again = 2 := (Nat.succ.inj (Nat.cast_injective hthird)).symm
  have hpauses : ((List.range' 1 2).map fun attempt : ℕ => (Double.finite (min (attempt / 4) 1)).smaller (.finite 10))
      = [.finite (1 / 4), .finite (1 / 2)] := by decide +kernel
  refine ⟨htime, hask.trans ?_⟩
  rw [hpauses]
  rfl

end Registry

end QueryFederation
