import EdgeTts.Lib.Search
import EdgeTts.Lib.Utf8
import EdgeTts.Lib.Regex
import EdgeTts.Lib.Decimal
import EdgeTts.Lib.Binary64
import EdgeTts.Lib.Calendar
import EdgeTts.Lib.CivilTime
import EdgeTts.Lib.Fips180
import EdgeTts.Lib.Interaction
import EdgeTts.Lib.Handlers
import EdgeTts.Lib.Threads
import EdgeTts.Lib.StableSort
import EdgeTts.Lib.Parts
import EdgeTts.Lib.Channel
import EdgeTts.Lib.Cutting
import EdgeTts.Lib.Options
import EdgeTts.Common.Error
import EdgeTts.Common.CancellationToken
import EdgeTts.Common.Hex
import EdgeTts.Common.IdGenerator
import EdgeTts.Common.Sha256
import EdgeTts.Common.Utf8
import EdgeTts.Common.Utf8Split
import EdgeTts.Serialization.XmlEscaper
import EdgeTts.Serialization.EntityPass
import EdgeTts.Serialization.TextNormalizer
import EdgeTts.Serialization.TextChunker
import EdgeTts.Serialization.ChunkText
import EdgeTts.Serialization.ChunkWords
import EdgeTts.Serialization.Protocol
import EdgeTts.Serialization.ProtocolGrammar
import EdgeTts.Core.Chunk
import EdgeTts.Serialization.Json
import EdgeTts.Serialization.MetadataDocuments
import EdgeTts.Serialization.VoiceDocuments
import EdgeTts.Core.TtsConfig
import EdgeTts.Core.VoiceNames
import EdgeTts.Serialization.SsmlBuilder
import EdgeTts.Serialization.VoiceNormalization
import EdgeTts.Communication.EdgeProtocol
import EdgeTts.Communication.EdgeProtocolIncoming
import EdgeTts.Communication.BinaryFrames
import EdgeTts.Communication.EdgeTokenProvider
import EdgeTts.Communication.HttpDate
import EdgeTts.Communication.DateArithmetic
import EdgeTts.Communication.SynthesisSession
import EdgeTts.Communication.SessionRuns
import EdgeTts.Communication.Conversations
import EdgeTts.Communication.SessionService
import EdgeTts.Communication.SessionProtocol
import EdgeTts.Communication.Cancellation
import EdgeTts.Communication.SessionAssembly
import EdgeTts.Communication.SessionTalks
import EdgeTts.Communication.VoiceService
import EdgeTts.Communication.ConnectionMetadata
import EdgeTts.Communication.VoiceList
import EdgeTts.Communication.ClockSkew
import EdgeTts.Communication.RequestUrl
import EdgeTts.Communication.DoubleTokens
import EdgeTts.Communication.WebSocketClient
import EdgeTts.Communication.HttpClient
import EdgeTts.Communication.DateHeader
import EdgeTts.Subtitle.SubtitleTime
import EdgeTts.Subtitle.SrtComposer
import EdgeTts.Subtitle.SubtitleBuilder
import EdgeTts.Subtitle.BuilderCalls
import EdgeTts.Subtitle.SessionSubtitles
import EdgeTts.Subtitle.Captions
import EdgeTts.Api.SpeechSynthesizer
import EdgeTts.Api.SingleUse
import EdgeTts.Api.Streaming
import EdgeTts.Api.LineEndings
import EdgeTts.Api.Delivery
import EdgeTts.Api.SavedFiles
import EdgeTts.Api.FileWriter
import EdgeTts.Api.ProductionSynthesizer
import EdgeTts.Communication.SessionUpgrades
import EdgeTts.Communication.SocketSession
import EdgeTts.Api.UpgradeRequests
import EdgeTts.Api.SpokenText
import EdgeTts.Api.SavedSpeech
import EdgeTts.Api.CancelledCall
import EdgeTts.Cli.EdgeTtsArgumentParser
import EdgeTts.Cli.PlaybackArgumentParser
import EdgeTts.Cli.CommonOptions
import EdgeTts.Cli.CredentialRedaction
import EdgeTts.Cli.VoiceFormatter
import EdgeTts.Cli.InputLoader
import EdgeTts.Cli.EdgeTtsCommandDispatcher
import EdgeTts.Cli.PlaybackCommandDispatcher
import EdgeTts.Cli.PlaybackRuns
import EdgeTts.Media.ProcessRunner
import EdgeTts.Media.ProcessThreads
import EdgeTts.Media.ProcessSteps
import EdgeTts.Media.ProcessCompletes
import EdgeTts.Media.FfmpegAudioConverter
import EdgeTts.Apps.EdgePlayback
import EdgeTts.Apps.Player
import EdgeTts.Cli.Routing
import EdgeTts.Apps.EdgeTtsMain
import EdgeTts.Apps.SpokenCommand
import EdgeTts.Apps.ListedVoices
import EdgeTts.Apps.SpokenPlayback
import EdgeTts.Api.SkewRecovery
import EdgeTts.Api.UnfinishedCalls
