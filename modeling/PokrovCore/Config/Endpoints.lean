import Mathlib.Data.List.Basic

/-!
# Config/Endpoints — endpoints are patched in a batch

Every endpoint of a profile is patched by a task of its own.  The tasks end in some order, each
leaves its result under the tag of its endpoint, and the endpoints are then read back by tag.  So an
endpoint gets the patch of the last task of its tag, which need not be its own.
-/

namespace PokrovCore.Config

variable {ρ : Type*}

/-- The options of an endpoint: those of a WARP endpoint that a patch writes, and all others. -/
inductive EndpointOptions (ρ : Type*)
  | warp (server : String) (serverPort : ℕ) (profileDetour : String) (rest : ρ)
  | other (rest : ρ)
  deriving DecidableEq

/-- `option.Endpoint` -/
structure Endpoint (ρ : Type*) where
  type : String
  tag : String
  options : EndpointOptions ρ
  deriving DecidableEq

def outboundDirectFragmentTag : String := "direct-fragment §hide§"

/-- `OutboundWARPConfigDetour`, as it is set wherever it is written. -/
def outboundWARPConfigDetour : String := outboundDirectFragmentTag

/-- `patchWarp`, called before the final configuration; it does not fail. -/
def patchWarp (base : Endpoint ρ) : Endpoint ρ :=
  match base.options with
  | .warp _ _ _ rest =>
    if base.type = "warp" then
      { base with options := .warp "" 0 outboundWARPConfigDetour rest }
    else base
  | .other _ => base

/-- The result under a key, once the tasks of the batch have ended in an order. -/
def result (ended : List (Endpoint ρ)) (key : String) : Option (Endpoint ρ) :=
  (ended.reverse.find? (·.tag = key)).map patchWarp

/-- **`patchConfigOptions`**: every endpoint is replaced by the result under its tag. -/
def patchConfigOptions (ended endpoints : List (Endpoint ρ)) : Option (List (Endpoint ρ)) :=
  endpoints.mapM fun base => result ended base.tag

variable {ended endpoints : List (Endpoint ρ)} {e : Endpoint ρ}

/-- The task that ended last decides. -/
theorem result_concat (ended : List (Endpoint ρ)) (e : Endpoint ρ) :
    result (ended ++ [e]) e.tag = some (patchWarp e) := by
  simp [result]

/-- A task leaves its result to be read. -/
theorem exists_result (he : e ∈ ended) :
    ∃ e' ∈ ended, e'.tag = e.tag ∧ result ended e.tag = some (patchWarp e') := by
  have hsome : (ended.reverse.find? (·.tag = e.tag)).isSome = true := by
    rw [List.find?_isSome]
    exact ⟨e, List.mem_reverse.mpr he, by simp⟩
  obtain ⟨e', he'⟩ := Option.isSome_iff_exists.mp hsome
  refine ⟨e', List.mem_reverse.mp (List.mem_of_find?_eq_some he'), ?_, ?_⟩
  · simpa using List.find?_some he'
  · rw [result, he', Option.map_some]

theorem mapM_eq_some_map_iff {α β : Type*} {f : α → Option β} {g : α → β} {l : List α} :
    l.mapM f = some (l.map g) ↔ ∀ a ∈ l, f a = some (g a) := by
  induction l with
  | nil => simp
  | cons a l ih =>
    rw [List.mapM_cons, List.map_cons, List.forall_mem_cons, ← ih]
    cases f a <;> cases l.mapM f <;> simp

/-- **Patching is positional, in whatever order the tasks end, exactly when the endpoints of one tag
have one patch.** -/
theorem endpoint_patching_positional (endpoints : List (Endpoint ρ)) :
    (∀ ended, ended.Perm endpoints →
      patchConfigOptions ended endpoints = some (endpoints.map patchWarp)) ↔
      ∀ e ∈ endpoints, ∀ e' ∈ endpoints, e.tag = e'.tag → patchWarp e = patchWarp e' := by
  constructor
  · intro h e he e' he' htag
    -- the task of `e'` ends last
    obtain ⟨before, after, hsplit⟩ := List.append_of_mem he'
    have hperm : (before ++ after ++ [e']).Perm endpoints := by
      rw [hsplit]
      exact List.perm_append_singleton _ _ |>.trans List.perm_middle.symm
    have hread := mapM_eq_some_map_iff.mp (h _ hperm) e he
    rw [htag, result_concat] at hread
    exact (Option.some.inj hread).symm
  · intro h ended hperm
    refine mapM_eq_some_map_iff.mpr fun e he => ?_
    obtain ⟨e', he', htag, hresult⟩ := exists_result (hperm.mem_iff.mpr he)
    rw [hresult, h e' (hperm.mem_iff.mp he') e he htag]

/-- Two endpoints without a tag: a WARP one, and one of another type. -/
def untagged : List (Endpoint ℕ) :=
  [⟨"warp", "", .warp "engage.example" 2408 "" 0⟩, ⟨"tailscale", "", .other 1⟩]

/-- **Without tags both positions get the patch of one endpoint.** -/
theorem endpoint_patching_untagged :
    patchConfigOptions untagged untagged = some [⟨"tailscale", "", .other 1⟩,
      ⟨"tailscale", "", .other 1⟩] ∧
      patchConfigOptions untagged untagged ≠ some (untagged.map patchWarp) := by
  decide +kernel

end PokrovCore.Config
