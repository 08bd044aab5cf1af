import HttpCpp.Server.Worker
import HttpCpp.Service.HostForms

namespace HttpCpp
namespace HttpWorker

open HttpService

variable {Site : Type}

theorem website_unique (websites : Websites Site) (w w' : Host × Site)
    (hw : w ∈ websites.entries) (hw' : w' ∈ websites.entries) (h : w.1 = w'.1) : w = w' := by
  have hfind := (StdMap.mem_entries websites w.1 w.2).mp hw
  have hfind' := (StdMap.mem_entries websites w'.1 w'.2).mp hw'
  rw [h, hfind'] at hfind
  exact Prod.ext h (Option.some.inj hfind).symm

theorem findWebsite_host (websites : Websites Site) (w : Host × Site) (hw : w ∈ websites.entries)
    (request : HttpRequest) (h : extractHost request = .ok w.1) :
    findWebsite websites request = .ok w := by
  simp only [findWebsite, h]
  cases hfind : websites.entries.find? (fun website => website.1 = w.1) with
  | none => simpa using List.find?_eq_none.mp hfind w hw
  | some w' =>
    have hsame : w'.1 = w.1 := by simpa using List.find?_some hfind
    rw [website_unique websites w' w (List.mem_of_find?_eq_some hfind) hw hsame]

/-- A request that names a website's host finds it, and one for any other host is invalid. -/
theorem findWebsite_routes (websites : Websites Site) :
    (∀ w ∈ websites.entries, HostName w.1.name → ∀ request, NamedBy w.1 request →
      findWebsite websites request = .ok w) ∧
    ∀ request host, extractHost request = .ok host → (∀ w ∈ websites.entries, w.1 ≠ host) →
      findWebsite websites request = .error (.httpInvalidRequest (lit "Unknown website...")) := by
  constructor
  · intro w hw hname request hnamed
    exact findWebsite_host websites w hw request (extractHost_named w.1 hname request hnamed)
  · intro request host hhost hother
    have hnone : websites.entries.find? (fun website => website.1 = host) = none := by
      apply List.find?_eq_none.mpr
      intro w hw
      simpa using hother w hw
    simp only [findWebsite, hhost, hnone]

/-- Two websites on one port, the second named by its Request-URI against the header. -/
theorem findWebsite_routes_uri :
    findWebsite ((StdMap.empty.emplace (⟨lit "a", 8080⟩ : Host) 0).emplace ⟨lit "b", 8080⟩ 1)
      { HttpRequest.fresh .mGet with
        requestUri := lit "http://b:8080/x?y"
        requestHeader := StdMap.empty.emplace (lit "Host") (lit "a:8080") } =
      .ok (⟨lit "b", 8080⟩, 1) := by
  apply (findWebsite_routes _).1 (⟨lit "b", 8080⟩, 1) (by decide) (by decide)
  exact Or.inr ⟨lit "b:8080", lit "/x", lit "?y", by decide, by decide,
    by decide, by decide⟩

end HttpWorker
end HttpCpp
