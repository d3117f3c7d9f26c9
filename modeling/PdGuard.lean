import PdGuard.Adapter.BreakerLaws
import PdGuard.Adapter.CircuitBreaker
import PdGuard.Adapter.LlmClient
import PdGuard.Adapter.LlmLaws
import PdGuard.Adapter.NerClient
import PdGuard.Adapter.NerHttp
import PdGuard.Adapter.SharedBreaker
import PdGuard.Config.Compiled
import PdGuard.Config.Loader
import PdGuard.Config.LoaderLaws
import PdGuard.Config.Model
import PdGuard.Config.ReferenceLaws
import PdGuard.Controller.AccessLaws
import PdGuard.Controller.AdminHandler
import PdGuard.Controller.AnswerLaws
import PdGuard.Controller.AuthLaws
import PdGuard.Controller.BatchLaws
import PdGuard.Controller.CallLaws
import PdGuard.Controller.Dto
import PdGuard.Controller.ErrorMapper
import PdGuard.Controller.LeakLaws
import PdGuard.Controller.LimitLaws
import PdGuard.Controller.Middleware
import PdGuard.Controller.ProcessHandler
import PdGuard.Controller.ProcessLaws
import PdGuard.Controller.ProxyCallLaws
import PdGuard.Controller.ProxyHandler
import PdGuard.Controller.ProxyLaws
import PdGuard.Controller.ReplyLaws
import PdGuard.Controller.RouteLaws
import PdGuard.Controller.Router
import PdGuard.Controller.ServingLaws
import PdGuard.Controller.UpstreamLaws
import PdGuard.Domain.CoverLaws
import PdGuard.Domain.Document
import PdGuard.Domain.DocumentLaws
import PdGuard.Domain.Entity
import PdGuard.Domain.EntityLaws
import PdGuard.Domain.OffsetLaws
import PdGuard.Domain.PdType
import PdGuard.Domain.SpanLaws
import PdGuard.Domain.Traits
import PdGuard.Infra.Crypto
import PdGuard.Infra.Http
import PdGuard.Infra.RateLimit
import PdGuard.Infra.RateLimitLaws
import PdGuard.Lib.Captures
import PdGuard.Lib.Greedy
import PdGuard.Lib.Groups
import PdGuard.Lib.Grows
import PdGuard.Lib.Image
import PdGuard.Lib.Layers
import PdGuard.Lib.Machine
import PdGuard.Lib.Meter
import PdGuard.Lib.Numbering
import PdGuard.Lib.Pattern
import PdGuard.Lib.Refines
import PdGuard.Lib.Regex
import PdGuard.Lib.Repeats
import PdGuard.Lib.Run
import PdGuard.Lib.Search
import PdGuard.Lib.Shift
import PdGuard.Lib.Simulation
import PdGuard.Lib.Splice
import PdGuard.Lib.Streak
import PdGuard.Lib.Sweep
import PdGuard.Lib.Tally
import PdGuard.Lib.Traverse
import PdGuard.Lib.Unicode
import PdGuard.Lib.Utf8
import PdGuard.Lib.Words
import PdGuard.Loadgen.Client
import PdGuard.Loadgen.ClientLaws
import PdGuard.Loadgen.Network
import PdGuard.Loadgen.NetworkLaws
import PdGuard.Loadgen.Stats
import PdGuard.Loadgen.StatsLaws
import PdGuard.Main
import PdGuard.MainLaws
import PdGuard.PrefilterLaws
import PdGuard.Sample
import PdGuard.SampleProxy
import PdGuard.ServedLaws
import PdGuard.Service.CalmLaws
import PdGuard.Service.CanonicalLaws
import PdGuard.Service.Combination
import PdGuard.Service.CombinationLaws
import PdGuard.Service.ConflictLaws
import PdGuard.Service.DegradeLaws
import PdGuard.Service.Demask
import PdGuard.Service.DemaskLaws
import PdGuard.Service.Detect.Address
import PdGuard.Service.Detect.AddressLaws
import PdGuard.Service.Detect.BoundaryLaws
import PdGuard.Service.Detect.CalendarLaws
import PdGuard.Service.Detect.Card
import PdGuard.Service.Detect.CardLaws
import PdGuard.Service.Detect.ChainLaws
import PdGuard.Service.Detect.ConfigRegex
import PdGuard.Service.Detect.Context
import PdGuard.Service.Detect.DateLaws
import PdGuard.Service.Detect.Dates
import PdGuard.Service.Detect.DetectionLaws
import PdGuard.Service.Detect.Documents
import PdGuard.Service.Detect.FindLaws
import PdGuard.Service.Detect.Fio
import PdGuard.Service.Detect.FioLaws
import PdGuard.Service.Detect.HitLaws
import PdGuard.Service.Detect.Hits
import PdGuard.Service.Detect.Identifiers
import PdGuard.Service.Detect.LuhnLaws
import PdGuard.Service.Detect.NameLaws
import PdGuard.Service.Detect.NumeralLaws
import PdGuard.Service.Detect.OriginLaws
import PdGuard.Service.Detect.PanicLaws
import PdGuard.Service.Detect.PhoneLaws
import PdGuard.Service.Detect.RangeLaws
import PdGuard.Service.Detect.Registry
import PdGuard.Service.Detect.StreetLaws
import PdGuard.Service.Detect.ValidatorLaws
import PdGuard.Service.Detect.Validators
import PdGuard.Service.EchoLaws
import PdGuard.Service.FaultLaws
import PdGuard.Service.GuardLaws
import PdGuard.Service.GuardService
import PdGuard.Service.IsolationLaws
import PdGuard.Service.JsonPathLaws
import PdGuard.Service.JsonPaths
import PdGuard.Service.KeepLaws
import PdGuard.Service.LayerLaws
import PdGuard.Service.Mask
import PdGuard.Service.MaskLaws
import PdGuard.Service.ModeLaws
import PdGuard.Service.NerLaws
import PdGuard.Service.OrderLaws
import PdGuard.Service.OutcomeLaws
import PdGuard.Service.PartialLaws
import PdGuard.Service.PathLaws
import PdGuard.Service.Pipeline
import PdGuard.Service.PipelineLaws
import PdGuard.Service.ProfileLaws
import PdGuard.Service.ReachLaws
import PdGuard.Service.Relevance
import PdGuard.Service.RelevanceLaws
import PdGuard.Service.ReplaceLaws
import PdGuard.Service.Requests
import PdGuard.Service.Resolve
import PdGuard.Service.ResolveLaws
import PdGuard.Service.RetainLaws
import PdGuard.Service.RetryLaws
import PdGuard.Service.RevealLaws
import PdGuard.Service.RoundtripLaws
import PdGuard.Service.Session
import PdGuard.Service.SessionLaws
import PdGuard.Service.SessionStore
import PdGuard.Service.SignalLaws
import PdGuard.Service.StoreLaws
import PdGuard.Service.SubstitutionLaws
import PdGuard.Service.SyntheticLaws
import PdGuard.Service.TemplateLaws
import PdGuard.Service.Tz
import PdGuard.Service.TzLaws
import PdGuard.Service.VaultLaws
import PdGuard.Service.WindowLaws
import PdGuard.TenantLaws
