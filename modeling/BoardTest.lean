import BoardTest.Lib.CString
import BoardTest.Lib.Fields
import BoardTest.Lib.Scan
import BoardTest.Lib.Numerals
import BoardTest.Lib.Decimal
import BoardTest.Lib.Strtol
import BoardTest.Lib.JsNumber
import BoardTest.Lib.Calendar
import BoardTest.Lib.Cells
import BoardTest.Lib.LastWrite
import BoardTest.Lib.Cursor
import BoardTest.Lib.Feed
import BoardTest.Lib.While
import BoardTest.Lib.Lines
import BoardTest.Lib.HexRows
import BoardTest.Lib.Totals
import BoardTest.Lib.Stores
import BoardTest.Lib.CMemory
import BoardTest.Lib.Raster
import BoardTest.Lib.Strided
import BoardTest.Lib.Turn
import BoardTest.Lib.Ranges
import BoardTest.Lib.Lookups
import BoardTest.Lib.RandomDescent
import BoardTest.Lib.Greedy
import BoardTest.Lib.Rect
import BoardTest.Lib.Region
import BoardTest.Lib.Rounding
import BoardTest.Lib.Shell
import BoardTest.Lib.ShellWords
import BoardTest.Lib.Json
import BoardTest.Lib.JsonTemplate
import BoardTest.Lib.JsonArray
import BoardTest.Gps.Nmea
import BoardTest.Gps.Sentence
import BoardTest.Gps.Framing
import BoardTest.Gps.Damage
import BoardTest.Gps.Checksum
import BoardTest.Gps.Memory
import BoardTest.Backend.Mongoose
import BoardTest.Backend.Params
import BoardTest.Backend.Handlers
import BoardTest.Backend.Reports
import BoardTest.Backend.ShellSafety
import BoardTest.Backend.JsonReplies
import BoardTest.Backend.Ports
import BoardTest.Dashboard.Config
import BoardTest.Video.NalLoop
import BoardTest.Video.DecoderTest
import BoardTest.Video.StreamPlayerTest
import BoardTest.Video.Fragments
import BoardTest.Video.SingleDecoder
import BoardTest.Video.DecodeThread
import BoardTest.Video.Arguments
import BoardTest.Video.EncodeFile
import BoardTest.Rtsp.Encoder
import BoardTest.Rtsp.Clients
import BoardTest.Rtsp.StreamHeader
import BoardTest.Rtsp.FrameSource
import BoardTest.FaceDet.Sort
import BoardTest.FaceDet.Parallel
import BoardTest.FaceDet.Model
import BoardTest.FaceDet.Proposals
import BoardTest.FaceDet.Postprocess
import BoardTest.FaceDet.Overlap
import BoardTest.FaceDet.Bounds
import BoardTest.FaceDet.Printed
import BoardTest.Frames.RectRegion
import BoardTest.Frames.RectBorder
import BoardTest.Frames.Yuyv
import BoardTest.Frames.Crop
import BoardTest.Frames.Rotate
import BoardTest.Gif.Gif2rgb
import BoardTest.Gif.Frames
import BoardTest.G2d.Tiles
import BoardTest.G2d.Buffers
import BoardTest.Can.CanfdTest
import BoardTest.Gpio.PinNames
import BoardTest.Gpio.DocumentedPins
import BoardTest.Uart.UartTest
import BoardTest.Uart.Transfer
import BoardTest.Uart.Echo
import BoardTest.Uart.SerialRead
import BoardTest.Spi.SlaveTest
import BoardTest.Spi.HexDump
import BoardTest.Backlight.FltestBacklight
import BoardTest.Keys.Keytest
import BoardTest.Simulator.DataSimulator
import BoardTest.Lib.Framing
import BoardTest.Backend.HttpHeads
import BoardTest.Backend.Chunks
import BoardTest.Backend.HttpMessages
import BoardTest.Qmi.Hangups
import BoardTest.Qmi.ClientIds
import BoardTest.Qmi.Requests
import BoardTest.Qmi.ResolvConf
import BoardTest.Qmi.Exchange
import BoardTest.Qmi.MainLoop
import BoardTest.Qmi.LinkState
import BoardTest.Qmi.Redial
import BoardTest.Backend.Replies
