import TransportSystem.StopIndex
import TransportSystem.RouteAnswers
import TransportSystem.RouteLength
import TransportSystem.JsonReader
import TransportSystem.CatalogueView
import TransportSystem.CatalogueAnswers
import TransportSystem.RouteView
import TransportSystem.RouteComparison
import TransportSystem.RouteWaits
import TransportSystem.BaseRequests
import TransportSystem.Proto
import TransportSystem.CatalogueProto
import TransportSystem.MapRenderer
import TransportSystem.RouterProto
import TransportSystem.RequestHandler
import TransportSystem.SavedGraph
import TransportSystem.Serialization
import TransportSystem.Library.Effects
import TransportSystem.IStream
import TransportSystem.JsonDocument
import TransportSystem.JsonLoad
import TransportSystem.JsonNumber
import TransportSystem.JsonGrammar
import TransportSystem.JsonReads
import TransportSystem.JsonComplete
import TransportSystem.JsonPrint
import TransportSystem.JsonTokens
import TransportSystem.JsonClean
import TransportSystem.ShortestRoutes
import TransportSystem.StoreHistory
import TransportSystem.RouteOverflow
import TransportSystem.SvgText
import TransportSystem.Library.Rounding
import TransportSystem.JsonDouble
import TransportSystem.JsonSettings
import TransportSystem.MapSafety
import TransportSystem.MakeBase
import TransportSystem.JsonBuilder
import TransportSystem.SvgRender
import TransportSystem.Library.Following
import TransportSystem.Library.Markup
import TransportSystem.StoredRoutes
import TransportSystem.StatRequests
import TransportSystem.LoadedCatalogue
import TransportSystem.LoadedRouter
import TransportSystem.StatQueries
import TransportSystem.StatAnswers
import TransportSystem.RequestSafety
import TransportSystem.DamagedBase
import TransportSystem.Program
import TransportSystem.PlainMachine
import TransportSystem.ProgramRuns
import TransportSystem.BaseSafety
import TransportSystem.ProgramSafety
import TransportSystem.BaseSchema
import TransportSystem.BuilderShape
import TransportSystem.BuilderContexts
import TransportSystem.BuilderValues
import TransportSystem.BuilderGrammar
import TransportSystem.JsonReread
import TransportSystem.ResponseTexts
import TransportSystem.JsonRfc
import TransportSystem.JsonFailures
import TransportSystem.Canvas
import TransportSystem.RoundTrips
import TransportSystem.MapObjects
import TransportSystem.SvgMarkup
import TransportSystem.MapMarkup
import TransportSystem.RoutingRange
import TransportSystem.Curvature
import TransportSystem.SnapshotPasses
