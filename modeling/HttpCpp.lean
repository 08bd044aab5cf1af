import HttpCpp.Framework.Regex
import HttpCpp.Protocol.BodySeparation
import HttpCpp.Protocol.ParseSafety
import HttpCpp.Protocol.WarmCache
import HttpCpp.Protocol.ResponseGrammar
import HttpCpp.Protocol.Rfc1123
import HttpCpp.Service.BareLineFeed
import HttpCpp.Service.RequestGrammar
import HttpCpp.Service.HeaderValue
import HttpCpp.Service.HostPort
import HttpCpp.Service.ResourceOutcome
import HttpCpp.Service.FilesystemService
import HttpCpp.Service.Rewriting
import HttpCpp.Rest.RouteMatch
import HttpCpp.Rest.Registration
import HttpCpp.Rest.StaticRoutes
import HttpCpp.Rest.RestService
import HttpCpp.Rest.RouteTree
import HttpCpp.Rest.RouteVariables
import HttpCpp.Rest.ReverseRouting
import HttpCpp.Filesystem.Containment
import HttpCpp.Filesystem.Listing
import HttpCpp.Server.Chunking
import HttpCpp.Server.Connect
import HttpCpp.Server.Exchange
import HttpCpp.Server.Pipelining
import HttpCpp.Server.CaseVariants
import HttpCpp.Server.Hosting
import HttpCpp.Server.SiteDisclosure
import HttpCpp.Server.ExampleService
import HttpCpp.Server.Uninitialised
import HttpCpp.Server.IdentityText
import HttpCpp.Server.Clients
import HttpCpp.Server.SharedAnswers
